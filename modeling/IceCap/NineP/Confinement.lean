import IceCap.NineP.Server

/-!
# What the server asks of the file system

In every state of the server the paths of the fids lead to places inside of the
root and their files have been opened by the server itself, and no call has been
made on anything else.
-/

set_option autoImplicit false

namespace IceCap.NineP

open IceCap.Library

variable {F H α : Type} {root : Path} {files : List H} {state : System F H}

/-- One of the calls has opened the file. -/
def Opened (calls : List (Call H)) (file : H) : Prop := ∃ call ∈ calls, call.opens = some file

/-- Every path that is in a call is inside of the root, and every file has been opened before. -/
def Confined (root : Path) (calls : List (Call H)) : Prop :=
  ∀ earlier call later, calls = earlier ++ call :: later →
    (∀ path ∈ call.paths, Inside root path) ∧ ∀ file, call.file = some file → Opened earlier file

theorem Opened.append {calls more : List (Call H)} {file : H} (opened : Opened calls file) :
    Opened (calls ++ more) file := by
  obtain ⟨call, member, opens⟩ := opened
  exact ⟨call, List.mem_append_left more member, opens⟩

theorem Confined.concat {calls : List (Call H)} {call : Call H} (confined : Confined root calls)
    (inside : ∀ path ∈ call.paths, Inside root path)
    (opened : ∀ file, call.file = some file → Opened calls file) :
    Confined root (calls ++ [call]) := by
  intro earlier other later isSplit
  rcases List.eq_nil_or_concat later with rfl | ⟨later, last, rfl⟩
  · obtain ⟨rfl, same⟩ := List.append_inj' isSplit rfl
    obtain rfl := List.singleton_inj.mp same
    exact ⟨inside, opened⟩
  · rw [List.concat_eq_append, ← List.cons_append, ← List.append_assoc] at isSplit
    exact confined earlier other later (List.append_inj' isSplit rfl).1

structure Server.Sane (root : Path) (server : Server H) : Prop where
  isRoot : server.root = root
  msize_ge : minMessageSize ≤ server.msize
  msize_le : server.msize ≤ maxMessageSize
  paths : ∀ number fid, server.fids number = some fid → Inside root fid.path

theorem Server.Sane.insert {server : Server H} (sane : server.Sane root) {number : UInt32}
    {entry : Fid H} (inside : Inside root entry.path) : (server.insert number entry).Sane root := by
  refine { sane with paths := fun other fid isFid => ?_ }
  dsimp only [Server.insert] at isFid
  by_cases same : other = number
  · rw [same, Function.update_self] at isFid
    obtain rfl := Option.some.inj isFid
    exact inside
  · rw [Function.update_of_ne same] at isFid
    exact sane.paths other fid isFid

theorem Server.Sane.erase {server : Server H} (sane : server.Sane root) {number : UInt32} :
    (server.erase number).Sane root := by
  refine { sane with paths := fun other fid isFid => ?_ }
  dsimp only [Server.erase] at isFid
  by_cases same : other = number
  · rw [same, Function.update_self] at isFid
    exact absurd isFid (Option.some_ne_none fid).symm
  · rw [Function.update_of_ne same] at isFid
    exact sane.paths other fid isFid

/-- What holds of every state; the files are those that a handler has in its hands. -/
structure Sound (root : Path) (files : List H) (state : System F H) : Prop where
  sane : state.server.Sane root
  opened : ∀ number fid file, state.server.fids number = some fid → fid.file = some file →
    Opened state.calls file
  held : ∀ file ∈ files, Opened state.calls file
  confined : Confined root state.calls

theorem Sound.mono {more : List H} (sound : Sound root more state) (less : files ⊆ more) :
    Sound root files state :=
  { sound with held := fun file member => sound.held file (less member) }

theorem Sound.drop (sound : Sound root files state) : Sound root [] state :=
  sound.mono (List.nil_subset files)

/-- The call keeps what holds of every state, whatever it returns, and does not panic. -/
def Keeping (root : Path) (call : Exec Error (System F H) α) : Prop :=
  Exec.Triple (Sound root []) call (fun _ => Sound root []) fun _ => Sound root []

theorem encode_returns [WireFormat α] [LawfulWireFormat α] (value : α) :
    Exec.Triple (fun _ => True) (WireFormat.encode value : Exec Error (List UInt8) Unit)
      (fun _ _ => True) fun _ _ => True := by
  intro out _
  by_cases fits : Fits value
  · have writes := (LawfulWireFormat.meets (α := α)).writes value out fits
    change (codec α).encode value out |>.Satisfies _ _
    rw [writes]
    trivial
  · obtain ⟨error, left, failed⟩ := (LawfulWireFormat.meets (α := α)).refuses value out fits
    change (codec α).encode value out |>.Satisfies _ _
    rw [failed]
    trivial

/-! ## Parts of handlers -/

section Parts
variable {host : Host F H}

theorem perform_sound {operation : Operation H α}
    (inside : ∀ path ∈ operation.paths, Inside root path)
    (opened : ∀ file, operation.file = some file → file ∈ files) :
    Exec.Triple (Sound root files) (perform host operation)
      (fun value => Sound root ((operation.opens (.ok value)).toList ++ files))
      fun _ => Sound root [] := by
  intro state sound
  have kept : ∀ (result : Except Error α) (fs : F),
      Sound root files { state with
        fs := fs, calls := state.calls ++ [operation.call result] } := fun result fs =>
    { sound with
      opened := fun number fid file isFid isFile => (sound.opened number fid file isFid isFile).append
      held := fun file member => (sound.held file member).append
      confined := sound.confined.concat inside fun file isFile =>
        sound.held file (opened file isFile) }
  unfold perform
  split
  · next value fs run =>
      refine { kept (.ok value) fs with held := fun file member => ?_ }
      rcases List.mem_append.mp member with isNew | isOld
      · exact ⟨_, List.mem_append_right _ List.mem_cons_self, Option.mem_toList.mp isNew⟩
      · exact (sound.held file isOld).append
  · next error fs run => exact (kept (.error error) fs).drop

theorem perform_path {operation : Operation H α} (inside : ∀ path ∈ operation.paths, Inside root path)
    (noFile : operation.file = none) :
    Exec.Triple (Sound root files) (perform host operation) (fun _ => Sound root files)
      fun _ => Sound root [] :=
  .weaken (perform_sound inside fun _ isFile => absurd (noFile.symm.trans isFile).symm
    (Option.some_ne_none _)) fun _ _ sound => sound.mono (List.subset_append_right ..)

theorem perform_file {operation : Operation H α} {file : H} (noPath : operation.paths = [])
    (isFile : operation.file = some file) (held : file ∈ files) :
    Exec.Triple (Sound root files) (perform host operation) (fun _ => Sound root files)
      fun _ => Sound root [] := by
  refine .weaken (perform_sound ?_ ?_) fun _ _ sound => sound.mono (List.subset_append_right ..)
  · simp [noPath]
  · intro other isOther
    obtain rfl := Option.some.inj (isFile.symm.trans isOther)
    exact held

theorem perform_open {options : OpenOptions} {path : Path} (inside : Inside root path) :
    Exec.Triple (Sound root files) (perform host (.openFile options path))
      (fun file => Sound root (file :: files)) fun _ => Sound root [] :=
  perform_sound (List.forall_mem_singleton.mpr inside) fun _ isFile =>
    absurd isFile.symm (Option.some_ne_none _)

theorem getFid_sound {fid : UInt32} {errno : Int} :
    Exec.Triple (Sound root files) (getFid fid errno)
      (fun (found : Fid H) (state : System F H) => Inside root found.path ∧
        Sound root (found.file.toList ++ files) state)
      fun _ => Sound root [] := by
  refine .bind .get fun state => .weaken (.okOr fun _ holds _ => holds.2.drop) ?_
  intro found _ ⟨isFid, same, sound⟩
  subst same
  refine ⟨sound.sane.paths fid found isFid, { sound with held := fun file member => ?_ }⟩
  rcases List.mem_append.mp member with isFile | isOther
  · exact sound.opened fid found file isFid (Option.mem_toList.mp isFile)
  · exact sound.held file isOther

theorem getFile_sound {fid : UInt32} :
    Exec.Triple (Sound root files) (getFile fid : Exec Error (System F H) H)
      (fun file => Sound root (file :: files)) fun _ => Sound root [] := by
  refine .bind .get fun state => .weaken (.okOr fun _ holds _ => holds.2.drop) ?_
  intro file _ ⟨isFile, same, sound⟩
  subst same
  obtain ⟨found, isFid, isFidFile⟩ := Option.bind_eq_some_iff.mp isFile
  have isOpened := sound.opened fid found file isFid isFidFile
  exact { sound with held := List.forall_mem_cons.mpr ⟨isOpened, sound.held⟩ }

theorem insert_sound {number : UInt32} {entry : Fid H} (inside : Inside root entry.path)
    (opened : ∀ file, entry.file = some file → file ∈ files) :
    Exec.Triple (Sound root files) (setServer (Server.insert number entry))
      (fun (_ : Unit) (state : System F H) => Sound root files state) fun _ => Sound root [] := by
  refine .modify fun state sound =>
    { sound with sane := sound.sane.insert inside, opened := fun other fid file isFid isFile => ?_ }
  dsimp only [Server.insert] at isFid
  by_cases same : other = number
  · rw [same, Function.update_self] at isFid
    obtain rfl := Option.some.inj isFid
    exact sound.held file (opened file isFile)
  · rw [Function.update_of_ne same] at isFid
    exact sound.opened other fid file isFid isFile

theorem erase_sound {number : UInt32} :
    Exec.Triple (Sound root files) (setServer (Server.erase number))
      (fun (_ : Unit) (state : System F H) => Sound root files state) fun _ => Sound root [] := by
  refine .modify fun state sound =>
    { sound with sane := sound.sane.erase, opened := fun other fid file isFid => ?_ }
  dsimp only [Server.erase] at isFid
  by_cases same : other = number
  · rw [same, Function.update_self] at isFid
    exact absurd isFid (Option.some_ne_none fid).symm
  · rw [Function.update_of_ne same] at isFid
    exact sound.opened other fid file isFid

theorem joinName_sound {path : Path} {name : String} (inside : Inside root path) :
    Exec.Triple (Sound root files) (joinName path name)
      (fun (joined : Path) (state : System F H) => Inside root joined ∧ Sound root files state)
      fun _ => Sound root [] := by
  refine .reading fun state sound => ?_
  obtain ⟨names, rfl, _⟩ := id inside
  rw [sound.sane.isRoot]
  exact .mono (joinPath_inside inside) (fun _ holds => holds) (fun _ _ holds => ⟨holds.1.2, holds.2⟩)
    fun _ _ sound => sound.drop

end Parts

namespace Server
variable {host : Host F H}

theorem attach_keeping {fields : Tattach} :
    Keeping root (attach host fields : Exec Error (System F H) Rattach) := by
  refine .reading fun state sound => ?_
  have inside : Inside root state.server.root := sound.sane.isRoot ▸ .root root
  refine .bind (.ensure fun _ holds _ => holds) fun _ => .of_fact fun _ => ?_
  refine .bind (perform_path (List.forall_mem_singleton.mpr inside) rfl) fun metadata => ?_
  refine .bind (insert_sound inside fun _ isFile => ?_) fun _ => .pure fun _ sound => sound
  exact absurd isFile.symm (Option.some_ne_none _)

theorem le_msize {size : UInt32} (enough : minMessageSize ≤ size) :
    minMessageSize ≤ min maxMessageSize size := by
  change minMessageSize ≤ if maxMessageSize ≤ size then maxMessageSize else size
  split
  · decide
  · exact enough

theorem msize_le {size : UInt32} : min maxMessageSize size ≤ maxMessageSize := by
  change (if maxMessageSize ≤ size then maxMessageSize else size) ≤ maxMessageSize
  split
  · exact UInt32.le_refl _
  · next isMore => exact UInt32.le_of_lt (UInt32.not_le.mp isMore)

theorem version_keeping {fields : Tversion} :
    Keeping root (version fields : Exec Error (System F H) Rversion) := by
  refine .bind (.ensure fun _ holds _ => holds) fun _ => .of_fact fun enough => ?_
  refine .bind (.modify fun state sound => ?_) fun _ => .pure fun _ sound => sound
  exact { sound with
    sane :=
      { isRoot := sound.sane.isRoot
        msize_ge := le_msize enough
        msize_le := msize_le
        paths := fun _ _ isFid => absurd isFid.symm (Option.some_ne_none _) }
    opened := fun _ _ _ isFid => absurd isFid.symm (Option.some_ne_none _) }

theorem doWalk_sound {wnames : List String} {buf : Path} {mds : List Metadata}
    (inside : Inside root buf) :
    Exec.Triple (Sound root []) (doWalk host wnames buf mds)
      (fun (found : Except Error Path × List Metadata) (state : System F H) =>
        (∀ path, found.1 = .ok path → Inside root path) ∧ Sound root [] state)
      fun _ => Sound root [] := by
  induction wnames generalizing buf mds with
  | nil => exact .pure fun _ sound => ⟨fun path isPath => Except.ok.inj isPath ▸ inside, sound⟩
  | cons wname wnames ih =>
      have step : Exec.Triple (Sound root []) (do
          let buf ← joinName buf wname
          let md ← perform host (.metadata buf)
          pure (buf, md))
          (fun (found : Path × Metadata) (state : System F H) =>
            Inside root found.1 ∧ Sound root [] state) fun _ => Sound root [] := by
        refine .bind (joinName_sound inside) fun joined => .of_fact fun isInside => ?_
        refine .bind (perform_path (List.forall_mem_singleton.mpr isInside) rfl) fun md => ?_
        exact .pure fun _ sound => ⟨isInside, sound⟩
      refine .bind step.attempt fun next => ?_
      cases next with
      | ok found => exact .of_fact fun isInside => ih isInside
      | error error =>
          exact .pure fun _ sound => ⟨fun _ isPath => (by cases isPath), sound⟩

theorem walk_keeping {fields : Twalk} :
    Keeping root (walk host fields : Exec Error (System F H) Rwalk) := by
  refine .reading fun state sound => ?_
  refine .bind (.ensure fun _ holds _ => holds) fun _ => .of_fact fun _ => ?_
  refine .bind getFid_sound fun fid => .of_fact fun inside => ?_
  refine .strengthen (.bind (doWalk_sound inside) fun found => .of_fact fun isInside => ?_)
    fun _ sound => sound.drop
  refine .through (fun _ => Sound root []) ?_ fun _ => .pure fun _ sound => sound
  obtain ⟨buf, mds⟩ := found
  cases buf with
  | ok buf =>
      refine .when (fun _ => insert_sound (isInside buf rfl) fun _ isFile => ?_) fun _ _ sound => sound
      exact absurd isFile.symm (Option.some_ne_none _)
  | error error => exact .weaken (.ensure fun _ sound _ => sound) fun _ _ holds => holds.2

/-- The header of a reply fits into every size that has been agreed on. -/
theorem room_sound {empty : Rmessage} {count : UInt32}
    (small : WireFormat.byteSize (⟨0, empty⟩ : Rframe) ≤ minMessageSize) :
    Exec.Triple (Sound root files) (room empty count : Exec Error (System F H) UInt32)
      (fun _ => Sound root files) fun _ => Sound root [] :=
  .reading fun _ sound => .bind (.assert fun _ _ => UInt32.le_trans small sound.sane.msize_ge) fun _ =>
    .pure fun _ holds => holds.2

theorem read_keeping {fields : Tread} :
    Keeping root (read host fields : Exec Error (System F H) Rread) := by
  refine .bind getFile_sound fun file => .bind (room_sound (by decide)) fun capacity => ?_
  exact .bind (perform_file rfl rfl List.mem_cons_self) fun _ => .pure fun _ sound => sound.drop

theorem write_keeping {fields : Twrite} :
    Keeping root (write host fields : Exec Error (System F H) Rwrite) := by
  refine .bind getFile_sound fun file => ?_
  exact .bind (perform_file rfl rfl List.mem_cons_self) fun _ => .pure fun _ sound => sound.drop

theorem clunk_keeping {fields : Tclunk} :
    Keeping root (clunk fields : Exec Error (System F H) Unit) :=
  .bind getFid_sound fun _ => .of_fact fun _ => .weaken erase_sound fun _ _ sound => sound.drop

theorem remove_keeping {fields : Tremove} :
    Keeping root (remove host fields : Exec Error (System F H) Unit) := by
  refine .bind getFid_sound fun fid => .of_fact fun inside => .bind erase_sound fun _ => ?_
  refine .weaken (perform_path ?_ ?_) fun _ _ sound => sound.drop
  · split <;> exact List.forall_mem_singleton.mpr inside
  · split <;> rfl

theorem statfs_keeping {fields : Tstatfs} :
    Keeping root (statfs host fields : Exec Error (System F H) Rstatfs) := by
  refine .bind getFid_sound fun fid => .of_fact fun inside => ?_
  refine .bind (.ensure fun _ sound _ => sound.drop) fun _ => .of_fact fun _ => ?_
  exact .bind (perform_path (List.forall_mem_singleton.mpr inside) rfl) fun _ =>
    .pure fun _ sound => sound.drop

/-- Open a file, and keep it with the path that it has been opened at. -/
theorem lopen_keeping {fields : Tlopen} :
    Keeping root (lopen host fields : Exec Error (System F H) Rlopen) := by
  refine .bind getFid_sound fun fid => .of_fact fun inside => ?_
  refine .bind (perform_open inside) fun file => ?_
  refine .bind (perform_file rfl rfl List.mem_cons_self) fun metadata => ?_
  refine .bind (insert_sound inside fun other isFile => ?_) fun _ => .pure fun _ sound => sound.drop
  exact Option.some.inj isFile ▸ List.mem_cons_self

theorem lcreate_keeping {fields : Tlcreate} :
    Keeping root (lcreate host fields : Exec Error (System F H) Rlcreate) := by
  refine .bind getFid_sound fun fid => .of_fact fun inside => ?_
  refine .bind (.ensure fun _ sound _ => sound.drop) fun _ => .of_fact fun _ => ?_
  refine .bind (joinName_sound inside) fun path => .of_fact fun isInside => ?_
  refine .bind (perform_open isInside) fun file => ?_
  refine .bind (perform_file rfl rfl List.mem_cons_self) fun metadata => ?_
  refine .bind (insert_sound isInside fun other isFile => ?_) fun _ => .pure fun _ sound => sound.drop
  exact Option.some.inj isFile ▸ List.mem_cons_self

theorem rename_keeping {fields : Trename} :
    Keeping root (rename host fields : Exec Error (System F H) Unit) := by
  refine .bind getFid_sound fun dfid => .of_fact fun inside => ?_
  refine .bind (joinName_sound inside) fun newpath => .of_fact fun isInside => ?_
  refine .bind getFid_sound fun fid => .of_fact fun isPath => ?_
  refine .bind (perform_path (List.forall_mem_cons.mpr ⟨isPath, List.forall_mem_singleton.mpr isInside⟩)
    rfl) fun _ => ?_
  refine .weaken (insert_sound isInside fun file isFile => ?_) fun _ _ sound => sound.drop
  exact List.mem_append_left _ (Option.mem_toList.mpr isFile)

theorem getAttr_keeping {fields : Tgetattr} :
    Keeping root (getAttr host fields : Exec Error (System F H) Rgetattr) := by
  refine .bind getFid_sound fun fid => .of_fact fun inside => ?_
  refine .bind (perform_path (List.forall_mem_singleton.mpr inside) rfl) fun metadata => ?_
  refine .bind (insert_sound inside fun file isFile => ?_) fun _ => .pure fun _ sound => sound.drop
  exact List.mem_append_left _ (Option.mem_toList.mpr isFile)

theorem setAttr_keeping {fields : Tsetattr} :
    Keeping root (setAttr host fields : Exec Error (System F H) Unit) := by
  refine .bind (.ensure fun _ holds _ => holds) fun _ => .of_fact fun _ => ?_
  refine .bind getFid_sound fun fid => .of_fact fun inside => .bind (perform_open inside) fun file => ?_
  have onFile : ∀ {operation : Operation H Unit} {condition : Prop} [Decidable condition],
      operation.paths = [] → operation.file = some file →
      Exec.Triple (Sound root (file :: (fid.file.toList ++ [])))
        (Exec.when condition (perform host operation))
        (fun _ => Sound root (file :: (fid.file.toList ++ []))) fun _ => Sound root [] :=
    fun noPath isFile => .when (fun _ => perform_file noPath isFile List.mem_cons_self)
      fun _ _ sound => sound
  refine .bind (onFile rfl rfl) fun _ => .bind (onFile rfl rfl) fun _ => ?_
  exact .weaken (onFile rfl rfl) fun _ _ sound => sound.drop

theorem dirent_sound {path : Path} {offset : UInt64} {item : Except Error (List UInt8)}
    (inside : Inside root path) :
    Exec.Triple (Sound root files) (dirent host path offset item)
      (fun _ => Sound root files) fun _ => Sound root [] := by
  refine .through (fun _ => Sound root files) ?_ fun name => ?_
  · cases item with
    | ok name => exact .pure fun _ sound => sound
    | error error => exact .fail fun _ sound => sound.drop
  refine .bind (perform_path (List.forall_mem_singleton.mpr inside) rfl) fun md => ?_
  exact .bind (.okOr fun _ sound _ => sound.drop) fun name => .pure fun _ holds => holds.2

theorem dirents_sound {path : Path} {offset : UInt64} {items : List (Except Error (List UInt8))}
    (inside : Inside root path) :
    Exec.Triple (Sound root files) (dirents host path offset items)
      (fun _ => Sound root files) fun _ => Sound root [] := by
  induction items generalizing offset with
  | nil => exact .pure fun _ sound => sound
  | cons item items ih =>
      exact .bind (dirent_sound inside) fun entry => .bind ih fun _ => .pure fun _ sound => sound

theorem fill_returns {capacity : Nat} {entries : List Dirent} :
    Exec.Triple (fun _ => True) (fill capacity entries) (fun _ _ => True) fun _ _ => True := by
  induction entries with
  | nil => exact .pure fun _ _ => trivial
  | cons entry entries ih =>
      refine .reading fun cursor _ => .ite (fun _ => .pure fun _ _ => trivial) fun _ => ?_
      exact .bind (encode_returns entry) fun _ => ih

theorem readdir_keeping {fields : Treaddir} :
    Keeping root (readdir host fields : Exec Error (System F H) Rreaddir) := by
  refine .bind getFid_sound fun fid => .of_fact fun inside => ?_
  refine .bind (.ensure fun _ holds _ => holds.drop) fun _ => .of_fact fun _ => ?_
  refine .through (fun _ => Sound root (fid.file.toList ++ [])) ?_ fun _ => ?_
  · refine .when (fun _ => ?_) fun _ _ sound => sound
    refine .bind (perform_path (List.forall_mem_singleton.mpr inside) rfl) fun items => ?_
    refine .bind (dirents_sound inside) fun entries => insert_sound inside fun file isFile => ?_
    exact List.mem_append_left _ (Option.mem_toList.mpr isFile)
  refine .bind getFid_sound fun fid => .of_fact fun inside => ?_
  refine .bind (.okOr fun _ sound _ => sound.drop) fun entries => .of_fact fun _ => ?_
  refine .bind (room_sound (by decide)) fun count => ?_
  refine .bind (.on (.strengthen (.bind fill_returns fun _ => .get) fun _ _ => trivial)
    (fun _ _ _ sound _ => sound) fun _ _ _ sound _ => sound.drop) fun data => ?_
  exact .pure fun _ sound => sound.drop

theorem fsync_keeping {fields : Tfsync} :
    Keeping root (fsync host fields : Exec Error (System F H) Unit) := by
  refine .bind getFile_sound fun file => ?_
  refine .weaken (perform_file ?_ ?_ List.mem_cons_self) fun _ _ sound => sound.drop
  · split <;> rfl
  · split <;> rfl

theorem link_keeping {fields : Tlink} :
    Keeping root (link host fields : Exec Error (System F H) Unit) := by
  refine .bind getFid_sound fun dfid => .of_fact fun inside => ?_
  refine .bind (joinName_sound inside) fun newpath => .of_fact fun isInside => ?_
  refine .bind getFid_sound fun fid => .of_fact fun isPath => ?_
  exact .weaken (perform_path (List.forall_mem_cons.mpr ⟨isPath,
    List.forall_mem_singleton.mpr isInside⟩) rfl) fun _ _ sound => sound.drop

theorem mkdir_keeping {fields : Tmkdir} :
    Keeping root (mkdir host fields : Exec Error (System F H) Rmkdir) := by
  refine .bind getFid_sound fun fid => .of_fact fun inside => ?_
  refine .bind (joinName_sound inside) fun newpath => .of_fact fun isInside => ?_
  refine .bind (perform_path (List.forall_mem_singleton.mpr isInside) rfl) fun _ => ?_
  exact .bind (perform_path (List.forall_mem_singleton.mpr isInside) rfl) fun metadata =>
    .pure fun _ sound => sound.drop

theorem renameAt_keeping {fields : Trenameat} :
    Keeping root (renameAt host fields : Exec Error (System F H) Unit) := by
  refine .bind getFid_sound fun oldfid => .of_fact fun inside => ?_
  refine .bind (joinName_sound inside) fun oldpath => .of_fact fun isOld => ?_
  refine .bind getFid_sound fun newfid => .of_fact fun inside => ?_
  refine .bind (joinName_sound inside) fun newpath => .of_fact fun isNew => ?_
  exact .weaken (perform_path (List.forall_mem_cons.mpr ⟨isOld, List.forall_mem_singleton.mpr isNew⟩)
    rfl) fun _ _ sound => sound.drop

theorem unlinkAt_keeping {fields : Tunlinkat} :
    Keeping root (unlinkAt host fields : Exec Error (System F H) Unit) := by
  refine .bind getFid_sound fun fid => .of_fact fun inside => ?_
  refine .bind (joinName_sound inside) fun path => .of_fact fun isInside => ?_
  refine .bind (perform_path (List.forall_mem_singleton.mpr isInside) rfl) fun md => ?_
  refine .bind (.ensure fun _ sound _ => sound.drop) fun _ => .of_fact fun _ => ?_
  refine .weaken (perform_path ?_ ?_) fun _ _ sound => sound.drop
  · split <;> exact List.forall_mem_singleton.mpr isInside
  · split <;> rfl

/-! ## Messages -/

theorem reply_keeping {make : α → Rmessage} {call : Exec Error (System F H) α}
    (keeping : Keeping root call) : Keeping root (reply make call) :=
  .bind keeping fun _ => .pure fun _ sound => sound

theorem refused_keeping {make : α → Rmessage} {error : Error} :
    Keeping root (reply make (Exec.fail error : Exec Error (System F H) α)) :=
  reply_keeping (.fail fun _ sound => sound)

theorem handle_keeping (msg : Tmessage) :
    Keeping root (handle host msg : Exec Error (System F H) Rmessage) := by
  cases msg with
  | version fields => exact reply_keeping version_keeping
  | flush fields => exact reply_keeping (.pure fun _ sound => sound)
  | walk fields => exact reply_keeping walk_keeping
  | read fields => exact reply_keeping read_keeping
  | write fields => exact reply_keeping write_keeping
  | clunk fields => exact reply_keeping clunk_keeping
  | remove fields => exact reply_keeping remove_keeping
  | attach fields => exact reply_keeping attach_keeping
  | auth fields => exact refused_keeping
  | statfs fields => exact reply_keeping statfs_keeping
  | lopen fields => exact reply_keeping lopen_keeping
  | lcreate fields => exact reply_keeping lcreate_keeping
  | symlink fields => exact refused_keeping
  | mknod fields => exact refused_keeping
  | rename fields => exact reply_keeping rename_keeping
  | readlink fields => exact refused_keeping
  | getAttr fields => exact reply_keeping getAttr_keeping
  | setAttr fields => exact reply_keeping setAttr_keeping
  | xattrWalk fields => exact refused_keeping
  | xattrCreate fields => exact refused_keeping
  | readdir fields => exact reply_keeping readdir_keeping
  | fsync fields => exact reply_keeping fsync_keeping
  | lock fields => exact refused_keeping
  | getLock fields => exact refused_keeping
  | link fields => exact reply_keeping link_keeping
  | mkdir fields => exact reply_keeping mkdir_keeping
  | renameAt fields => exact reply_keeping renameAt_keeping
  | unlinkAt fields => exact reply_keeping unlinkAt_keeping

theorem respond_keeping (msg : Tmessage) :
    Exec.Triple (Sound root []) (respond host msg)
      (fun (_ : Rmessage) (state : System F H) => Sound root [] state) fun _ _ => False :=
  .unwrapOrElse (handle_keeping msg) fun _ _ sound => sound

/-! ## Runs -/

theorem decode_returns {limit : Nat} (input : List UInt8) :
    (Codec.limited limit (WireFormat.decode : Exec Error _ Tframe) input).Satisfies
      (fun _ _ => True) fun _ _ => True := by
  cases run : Codec.limited limit (WireFormat.decode : Exec Error _ Tframe) input with
  | ok value next => trivial
  | err error next => trivial
  | panic => exact Tframe.decode_ne_panic (Codec.limited_eq_panic.mp run)

theorem handleMessage_sound :
    Exec.Triple (fun connection => Sound root [] connection.system) (handleMessage host)
      (fun (_ : Unit) (connection : Connection F H) => Sound root [] connection.system)
      fun _ connection => Sound root [] connection.system := by
  refine .reading fun connection _ => ?_
  refine .through (fun _ connection => Sound root [] connection.system)
    (.focus fun state sound => .mono (decode_returns _) (fun _ _ _ => sound) fun _ _ _ => sound)
    fun request => ?_
  refine .through (fun _ connection => Sound root [] connection.system)
    (.focus fun state sound => .mono (respond_keeping request.msg state.system sound)
      (fun _ _ kept => kept) fun _ _ failed => failed.elim) fun msg => ?_
  exact .focus fun state sound => .mono (encode_returns _ _ trivial) (fun _ _ _ => sound)
    fun _ _ _ => sound

theorem handleClient_sound (rounds : Nat) :
    Exec.Triple (fun connection => Sound root [] connection.system) (handleClient host rounds)
      (fun (_ : Unit) (connection : Connection F H) => Sound root [] connection.system)
      fun _ connection => Sound root [] connection.system := by
  induction rounds with
  | zero => exact .pure fun _ sound => sound
  | succ rounds ih => exact .bind handleMessage_sound fun _ => ih

theorem sound_new (root : Path) (fs : F) :
    Sound root [] (⟨.new root, fs, []⟩ : System F H) where
  sane :=
    { isRoot := rfl
      msize_ge := (by decide : minMessageSize ≤ maxMessageSize)
      msize_le := UInt32.le_refl _
      paths := fun _ _ isFid => absurd isFid.symm (Option.some_ne_none _) }
  opened := fun _ _ _ isFid => absurd isFid.symm (Option.some_ne_none _)
  held := fun _ member => absurd member List.not_mem_nil
  confined := fun _ _ _ isSplit => absurd isSplit.symm (by simp)

end Server

/-- Whatever a client sends, the server does not panic, and it never gives the file system a path
that is not inside of the root nor uses a file that it has not opened at such a path. -/
theorem handleClient_confined (host : Host F H) (root : Path) (fs : F) (input : List UInt8)
    (rounds : Nat) :
    (handleClient host rounds (.new root fs input)).Satisfies
      (fun _ final => Confined root final.system.calls)
      fun _ final => Confined root final.system.calls :=
  .mono (Server.handleClient_sound rounds _ (Server.sound_new root fs))
    (fun _ _ sound => sound.confined) fun _ _ sound => sound.confined

end IceCap.NineP
