import IceCap.NineP.Views

/-!
# Listing a directory

A client reads a directory in parts: it asks for what is behind the last entry
that it has got, until nothing more comes.  In between it may send whatever else
it wants, as long as that is not about the same fid.
-/

set_option autoImplicit false

namespace IceCap.NineP

open IceCap.Library

variable {F H : Type} {root : Path} {host : Host F H}

/-! ## Offsets -/

/-- The offset that a client goes on with. -/
def lastOffset (start : UInt64) (entries : List Dirent) : UInt64 :=
  (entries.getLast?.map Dirent.offset).getD start

def listingSize (entries : List Dirent) : Nat := (entries.map fun entry => wireSize entry).sum

/-- All names can be encoded, and the offsets do not wrap around. -/
structure Listable (entries : List Dirent) : Prop where
  fits : ∀ entry ∈ entries, Fits entry
  small : listingSize entries < 2 ^ 64

section Offsets
variable {start : UInt64} {entry : Dirent} {taken rest : List Dirent}

theorem lastOffset_cons : lastOffset start (entry :: taken) = lastOffset entry.offset taken := by
  rw [lastOffset, List.getLast?_cons, lastOffset]
  cases taken.getLast? <;> rfl

theorem toNat_offset (isOffset : entry.offset = start + (WireFormat.byteSize entry).toUInt64)
    (fits : Fits entry) (small : start.toNat + wireSize entry < 2 ^ 64) :
    entry.offset.toNat = start.toNat + wireSize entry := by
  have isSize : (WireFormat.byteSize entry).toUInt64.toNat = wireSize entry := by
    rw [UInt32.toNat_toUInt64]
    exact toNat_byteSize fits
  rw [isOffset, UInt64.toNat_add, isSize, Nat.mod_eq_of_lt small]

theorem wireSize_pos : 0 < wireSize entry := by
  have length := length_direntBytes entry
  change wireSize entry = _ at length
  omega

theorem le_lastOffset (numbered : Numbered start (taken ++ rest))
    (fits : ∀ entry ∈ taken ++ rest, Fits entry)
    (small : start.toNat + listingSize (taken ++ rest) < 2 ^ 64) : start ≤ lastOffset start taken := by
  induction taken generalizing start with
  | nil => exact UInt64.le_refl start
  | cons entry taken ih =>
      obtain ⟨isOffset, isRest⟩ := numbered
      obtain ⟨isFit, areFit⟩ := List.forall_mem_cons.mp fits
      rw [List.cons_append, listingSize, List.map_cons, List.sum_cons] at small
      have isNat := toNat_offset isOffset isFit (by omega)
      have isLess : start ≤ entry.offset := UInt64.le_iff_toNat_le.mpr (by omega)
      rw [lastOffset_cons]
      exact UInt64.le_trans isLess (ih isRest areFit (by rw [listingSize]; omega))

/-- What is skipped are exactly the entries up to the offset of the last one. -/
theorem dropWhile_numbered (numbered : Numbered start (taken ++ rest))
    (fits : ∀ entry ∈ taken ++ rest, Fits entry)
    (small : start.toNat + listingSize (taken ++ rest) < 2 ^ 64) :
    (taken ++ rest).dropWhile (fun entry => entry.offset ≤ lastOffset start taken) = rest := by
  induction taken generalizing start with
  | nil =>
      cases rest with
      | nil => rfl
      | cons entry rest =>
          have isFit := fits entry List.mem_cons_self
          rw [List.nil_append, listingSize, List.map_cons, List.sum_cons] at small
          have isNat := toNat_offset numbered.1 isFit (by omega)
          have isPos : 0 < wireSize entry := wireSize_pos
          refine List.dropWhile_cons_of_neg fun isLess => ?_
          have less := UInt64.le_iff_toNat_le.mp (of_decide_eq_true isLess)
          change entry.offset.toNat ≤ start.toNat at less
          omega
  | cons entry taken ih =>
      obtain ⟨isOffset, isRest⟩ := numbered
      obtain ⟨isFit, areFit⟩ := List.forall_mem_cons.mp fits
      rw [List.cons_append, listingSize, List.map_cons, List.sum_cons] at small
      have isNat := toNat_offset isOffset isFit (by omega)
      have within : entry.offset.toNat + listingSize (taken ++ rest) < 2 ^ 64 := by
        rw [listingSize]
        omega
      rw [lastOffset_cons, List.cons_append, List.dropWhile_cons_of_pos]
      · exact ih isRest areFit within
      · exact decide_eq_true (le_lastOffset isRest areFit within)

end Offsets

/-! ## Parts -/

/-- The entries that a client decodes from the data of a reply. -/
inductive Decoded : List UInt8 → List Dirent → Prop where
  | nil : Decoded [] []
  | cons {data rest : List UInt8} {entry : Dirent} {entries : List Dirent}
      (read : WireFormat.decode data = .ok entry rest) (later : Decoded rest entries) :
      Decoded data (entry :: entries)

theorem Decoded.eq {data : List UInt8} {taken entries : List Dirent} (decoded : Decoded data entries)
    (isData : data = taken.flatMap direntBytes) (fits : ∀ entry ∈ taken, Fits entry) :
    entries = taken := by
  induction decoded generalizing taken with
  | nil =>
      cases taken with
      | nil => rfl
      | cons entry taken =>
          have length := congrArg List.length isData
          rw [List.flatMap_cons, List.length_append, length_direntBytes, List.length_nil] at length
          exact absurd length (by omega)
  | @cons data rest entry entries read later ih =>
      obtain ⟨_, _, used, isUsed, length⟩ :=
        (LawfulWireFormat.meets (α := Dirent)).consumes data entry rest read
      change used.length = (direntBytes entry).length at length
      rw [length_direntBytes] at length
      cases taken with
      | nil =>
          have none := congrArg List.length (isUsed.symm.trans isData)
          rw [List.length_append, List.flatMap_nil, List.length_nil] at none
          omega
      | cons first taken =>
          obtain ⟨isFit, areFit⟩ := List.forall_mem_cons.mp fits
          have isFirst := (LawfulWireFormat.meets (α := Dirent)).reads first
            (taken.flatMap direntBytes) isFit ⟨⟨trivial, trivial, trivial⟩, trivial, trivial, trivial⟩
          rw [isData, List.flatMap_cons] at read
          obtain ⟨rfl, rfl⟩ := Outcome.ok.inj (isFirst.symm.trans read)
          rw [ih rfl areFit]

/-! ## What is in a directory -/

/-- The entries that are made of the items of a directory, with what the host returns for each of them
in turn. -/
inductive Describes (host : Host F H) (path : Path) :
    F → UInt64 → List (Except Error (List UInt8)) → List Dirent → Prop where
  | nil {fs : F} {offset : UInt64} : Describes host path fs offset [] []
  | cons {fs after : F} {offset : UInt64} {name : List UInt8} {md : Metadata} {entry : Dirent}
      {items : List (Except Error (List UInt8))} {entries : List Dirent}
      (isMetadata : host.run (.entryMetadata path name) fs = (.ok md, after))
      (isName : String.fromUTF8? name.toByteArray = some entry.name)
      (isQid : entry.qid = metadataToQid md)
      (isType : entry.ty = if md.isDir then dtDir else if md.isFile then dtReg else dtUnknown)
      (isOffset : entry.offset = offset + (WireFormat.byteSize entry).toUInt64)
      (later : Describes host path after entry.offset items entries) :
      Describes host path fs offset (.ok name :: items) (entry :: entries)

/-- The entries are those of the directory as the host returns it when it is read. -/
def Directory (host : Host F H) (path : Path) (fs : F) (entries : List Dirent) : Prop :=
  ∃ items after, host.run (.readDir path) fs = (.ok items, after) ∧
    Describes host path after 0 items entries

def Snapshot (server : Server H) (fid : UInt32) (entries : List Dirent) : Prop :=
  ∃ entry, server.fids fid = some entry ∧ entry.dirents = some entries

/-- The server and the file system. -/
def Stands (server : Server H) (fs : F) (state : System F H) : Prop :=
  state.server = server ∧ state.fs = fs

section Directories
variable {server : Server H} {fs : F} {path : Path}

theorem perform_stands {α : Type} {operation : Operation H α} :
    Exec.Triple (Stands server fs) (perform host operation)
      (fun value state => ∃ after, host.run operation fs = (.ok value, after) ∧
        Stands server after state) fun _ _ => True := by
  rintro state ⟨rfl, rfl⟩
  unfold perform
  split
  · next value after run => exact ⟨after, run, rfl, rfl⟩
  · trivial

theorem getFid_stands {fid : UInt32} {errno : Int} :
    Exec.Triple (Stands server fs) (getFid fid errno)
      (fun (found : Fid H) (state : System F H) =>
        server.fids fid = some found ∧ Stands server fs state) fun _ _ => True := by
  refine .reading fun state stands => ?_
  rw [stands.1]
  exact .okOr fun _ _ _ => trivial

theorem dirent_describes {offset : UInt64} {item : Except Error (List UInt8)} :
    Exec.Triple (Stands server fs) (Server.dirent host path offset item)
      (fun entry state => ∃ after, (∀ items entries,
        Describes host path after entry.offset items entries →
          Describes host path fs offset (item :: items) (entry :: entries)) ∧
        Stands server after state) fun _ _ => True := by
  cases item with
  | error error => exact fun _ _ => trivial
  | ok name =>
      refine .through (fun found state => found = name ∧ Stands server fs state)
        (.pure fun _ stands => ⟨rfl, stands⟩) fun found => .of_fact fun same => ?_
      subst same
      refine .bind perform_stands fun md => .of_exists fun after => .of_fact fun isMetadata => ?_
      refine .bind (.okOr fun _ _ _ => trivial) fun text => .of_fact fun isName => .pure ?_
      intro state stands
      exact ⟨after, fun _ _ later => .cons isMetadata isName rfl rfl rfl later, stands⟩

theorem dirents_describes {offset : UInt64} {items : List (Except Error (List UInt8))} :
    Exec.Triple (Stands server fs) (Server.dirents host path offset items)
      (fun entries state => Describes host path fs offset items entries ∧ At server state)
      fun _ _ => True := by
  induction items generalizing fs offset with
  | nil => exact .pure fun _ stands => ⟨.nil, stands.1⟩
  | cons item items ih =>
      refine .bind dirent_describes fun entry => .of_exists fun after => .of_fact fun goesOn => ?_
      refine .bind ih fun entries => .of_fact fun describes => .pure fun _ isAt => ?_
      exact ⟨goesOn _ _ describes, isAt⟩

/-- A request for a directory from its start puts into memory what the host returns for it. -/
theorem readdir_directory (sane : server.Sane root) {fields : Treaddir} (isStart : fields.offset = 0) :
    Exec.Triple (Stands server fs) (Server.readdir host fields)
      (fun _ state => ∃ fid entries, server.fids fields.fid = some fid ∧
        Directory host fid.path fs entries ∧ Snapshot state.server fields.fid entries)
      fun _ _ => True := by
  refine .bind getFid_stands fun fid => .of_fact fun isFid => ?_
  refine .bind (.ensure fun _ _ _ => trivial) fun _ => .of_fact fun _ => ?_
  refine .through (fun _ state => ∃ entries, Directory host fid.path fs entries ∧
    At (server.insert fields.fid { fid with dirents := some entries }) state)
    (.when (fun _ => ?_) fun _ isLater _ => absurd isStart isLater) fun _ => ?_
  · refine .bind perform_stands fun items => .of_exists fun after => .of_fact fun isItems => ?_
    refine .bind dirents_describes fun entries => .of_fact fun describes => ?_
    exact .weaken setServer_at fun _ _ isAt => ⟨entries, ⟨items, after, isItems, describes⟩, isAt⟩
  · refine .of_exists fun entries => .of_fact fun directory => ?_
    have isRead : (server.insert fields.fid { fid with dirents := some entries }).fids fields.fid =
        some { fid with dirents := some entries } := Function.update_self ..
    have kept : (server.insert fields.fid { fid with dirents := some entries }).Sane root :=
      sane.insert (sane.paths fields.fid fid isFid)
    refine .mono (Server.serve_at kept isRead) (fun _ isAt => isAt) ?_ fun _ _ _ => trivial
    intro _ state ⟨_, isAt⟩
    rw [show state.server = _ from isAt]
    exact ⟨fid, entries, isFid, directory, _, isRead, rfl⟩

end Directories

/-! ## What stays in memory -/

/-- One of the exchanges could change what there is in memory for the fid. -/
def Touches (fid : UInt32) : Tmessage → Prop
  | .version _ => True
  | .walk request => request.newfid = fid
  | .clunk request => request.fid = fid
  | .remove request => request.fid = fid
  | .readdir request => request.fid = fid
  | _ => False

section Snapshots
variable {before after : Server H} {msg : Tmessage} {result : Except Error Rmessage} {fid : UInt32}
  {entries : List Dirent}

theorem Snapshot.unique {other : List Dirent} (snapshot : Snapshot before fid entries)
    (another : Snapshot before fid other) : entries = other := by
  obtain ⟨found, isFound, isRead⟩ := snapshot
  obtain ⟨same, isSame, isOther⟩ := another
  obtain rfl := Option.some.inj (isFound.symm.trans isSame)
  exact Option.some.inj (isRead.symm.trans isOther)

theorem Snapshot.insert (snapshot : Snapshot before fid entries) {other : UInt32} {found entry : Fid H}
    (isFound : before.fids other = some found) (same : entry.dirents = found.dirents) :
    Snapshot (before.insert other entry) fid entries := by
  obtain ⟨old, isOld, isRead⟩ := snapshot
  by_cases isOther : fid = other
  · subst isOther
    obtain rfl := Option.some.inj (isOld.symm.trans isFound)
    exact ⟨entry, Function.update_self .., same.trans isRead⟩
  · exact ⟨old, (Function.update_of_ne isOther ..).trans isOld, isRead⟩

theorem Snapshot.insert_other (snapshot : Snapshot before fid entries) {other : UInt32} {entry : Fid H}
    (isOther : fid ≠ other) : Snapshot (before.insert other entry) fid entries := by
  obtain ⟨old, isOld, isRead⟩ := snapshot
  exact ⟨old, (Function.update_of_ne isOther ..).trans isOld, isRead⟩

theorem Snapshot.erase (snapshot : Snapshot before fid entries) {other : UInt32}
    (isOther : fid ≠ other) : Snapshot (before.erase other) fid entries := by
  obtain ⟨old, isOld, isRead⟩ := snapshot
  exact ⟨old, (Function.update_of_ne isOther ..).trans isOld, isRead⟩

/-- What is in memory for a fid stays there. -/
theorem Effect.snapshot (effect : Effect before msg result after) (apart : ¬ Touches fid msg)
    (snapshot : Snapshot before fid entries) : Snapshot after fid entries := by
  cases effect with
  | plain isPlain => exact snapshot
  | version enough isText => exact absurd trivial apart
  | @attach fields metadata isFree =>
      refine snapshot.insert_other fun same => ?_
      obtain ⟨old, isOld, _⟩ := snapshot
      rw [same, isFree] at isOld
      exact absurd isOld.symm (Option.some_ne_none old)
  | walk isFid full leads => exact snapshot.insert_other fun same => apart same.symm
  | walkPart part => exact snapshot
  | read fits => exact snapshot
  | clunk isFid => exact snapshot.erase fun same => apart same.symm
  | remove isFid => exact snapshot.erase fun same => apart same.symm
  | lopen isFid => exact snapshot.insert isFid rfl
  | lcreate isFid leads => exact snapshot.insert isFid rfl
  | rename isFid isDir leads => exact snapshot.insert isFid rfl
  | getAttr isFid => exact snapshot.insert isFid rfl
  | readdir isFid isStart numbered listed => exact snapshot.insert_other fun same => apart same.symm
  | readdirMore isFid isLater isRead listed => exact snapshot
  | readdirFails isFid isStart numbered => exact snapshot.insert_other fun same => apart same.symm
  | removeFails => exact snapshot.erase fun same => apart same.symm
  | fails refusable => exact snapshot

end Snapshots

/-! ## Reading -/

/-- A request that reads the directory from its start. -/
def Restarts (fid : UInt32) (msg : Tmessage) : Prop :=
  ∃ fields, msg = .readdir fields ∧ fields.fid = fid ∧ fields.offset = 0

/-- The entries are those of the directory as the host returned it when the fid was last read from its
start. -/
def ReadFrom (host : Host F H) (first : Connection F H) (fid : UInt32)
    (exchanged : List (Tframe × Rframe)) (entries : List Dirent) : Prop :=
  ∃ earlier request reply later middle entry, exchanged = earlier ++ (request, reply) :: later ∧
    Restarts fid request.msg ∧ (∀ exchange ∈ later, ¬ Restarts fid exchange.1.msg) ∧
    Served host first earlier middle ∧ middle.system.server.fids fid = some entry ∧
    Directory host entry.path middle.system.fs entries

theorem ReadFrom.later {first : Connection F H} {fid : UInt32} {exchanged : List (Tframe × Rframe)}
    {entries : List Dirent} (readFrom : ReadFrom host first fid exchanged entries)
    {exchange : Tframe × Rframe} (goesOn : ¬ Restarts fid exchange.1.msg) :
    ReadFrom host first fid (exchanged ++ [exchange]) entries := by
  obtain ⟨earlier, request, reply, later, middle, entry, rfl, restarts, noneLater, rest⟩ := readFrom
  refine ⟨earlier, request, reply, later ++ [exchange], middle, entry, by simp, restarts, ?_, rest⟩
  intro other member
  rcases List.mem_append.mp member with isLater | isLast
  · exact noneLater other isLater
  · rwa [List.mem_singleton.mp isLast]

theorem not_restarts_of_apart {fid : UInt32} {msg : Tmessage} (apart : ¬ Touches fid msg) :
    ¬ Restarts fid msg := by
  rintro ⟨fields, rfl, isFid, _⟩
  exact apart isFid

/-- What a client has got of a directory after some exchanges, if it asks for what is behind the last
entry and leaves the fid alone otherwise. -/
inductive Reading (fid : UInt32) : List (Tframe × Rframe) → List Dirent → Prop where
  | start : Reading fid [] []
  | other {exchanged : List (Tframe × Rframe)} {listed : List Dirent} {request : Tframe}
      {reply : Rframe} (reading : Reading fid exchanged listed) (apart : ¬ Touches fid request.msg) :
      Reading fid (exchanged ++ [(request, reply)]) listed
  | refused {exchanged : List (Tframe × Rframe)} {listed : List Dirent} {tag tag' : UInt16}
      {fields : Treaddir} {error : Rlerror} (reading : Reading fid exchanged listed)
      (isFid : fields.fid = fid) (isNext : listed = [] ∨ fields.offset ≠ 0) :
      Reading fid (exchanged ++ [(⟨tag, .readdir fields⟩, ⟨tag', .lerror error⟩)]) listed
  | more {exchanged : List (Tframe × Rframe)} {listed part : List Dirent} {tag tag' : UInt16}
      {fields : Treaddir} {data : List UInt8} (reading : Reading fid exchanged listed)
      (isFid : fields.fid = fid) (isNext : listed = [] ∨ fields.offset ≠ 0)
      (isOffset : fields.offset = lastOffset 0 listed) (decoded : Decoded data part) :
      Reading fid (exchanged ++ [(⟨tag, .readdir fields⟩, ⟨tag', .readdir ⟨⟨data⟩⟩⟩)]) (listed ++ part)

section Runs
variable {connection final : Connection F H} {exchanged : List (Tframe × Rframe)}
  {listed entries : List Dirent}

theorem answer_readdir {result : Except Error Rmessage} {data : List UInt8}
    (isReply : (.readdir ⟨⟨data⟩⟩ : Rmessage) = answer result) :
    result = .ok (.readdir ⟨⟨data⟩⟩) := by
  cases result with
  | ok reply => exact congrArg Except.ok isReply.symm
  | error error => cases isReply

theorem answer_lerror {result : Except Error Rmessage} {before after : Server H} {fields : Treaddir}
    {error : Rlerror} (isReply : (.lerror error : Rmessage) = answer result)
    (effect : Effect before (.readdir fields) result after) (isLater : fields.offset ≠ 0) :
    after = before := by
  cases effect with
  | plain isPlain => rfl
  | readdir isFid isStart numbered isListed => cases isReply
  | readdirMore isFid isLater isRead isListed => rfl
  | readdirFails isFid isStart numbered => exact absurd isStart isLater
  | fails refusable => rfl

/-- The reply continues the list with entries that come next, as many as there is room for. -/
theorem listed_next {msize : UInt32} {fields : Treaddir} {data : List UInt8}
    (isListed : Listed msize fields entries data) (numbered : Numbered 0 entries)
    (listable : Listable entries) (start : listed <+: entries)
    (isOffset : fields.offset = lastOffset 0 listed) :
    ∃ part rest, entries = listed ++ part ++ rest ∧ data = part.flatMap direntBytes ∧
      (∀ entry ∈ part, Fits entry) ∧
      ∀ entry ∈ rest.head?, readdirRoom msize fields.count - data.length < wireSize entry := by
  obtain ⟨later, rfl⟩ := start
  unfold Listed at isListed
  rw [isOffset, dropWhile_numbered numbered listable.fits
    (by simpa using listable.small)] at isListed
  obtain ⟨part, rest, rfl, isData, _, fits, isFull⟩ := fill_spec isListed (Nat.zero_le _)
  refine ⟨part, rest, (List.append_assoc ..).symm, isData, fits, fun entry member => ?_⟩
  have isFit := listable.fits entry (by simp [List.mem_of_mem_head? member])
  have less := isFull entry member
  rwa [toNat_byteSize isFit] at less

theorem Served.single {request : Tframe} {reply : Rframe}
    (served : Served host connection [(request, reply)] final)
    (sound : Sound root [] connection.system) :
    Sound root [] final.system ∧ reply.tag = request.tag ∧ ∃ result,
      Effect connection.system.server request.msg result final.system.server ∧
        reply.msg = answer result := by
  generalize isExchange : [(request, reply)] = exchanged at served
  cases served with
  | done => cases isExchange
  | next read answered later =>
      obtain ⟨isFirst, isRest⟩ := List.cons.inj isExchange
      obtain ⟨rfl, rfl⟩ := Prod.mk.inj isFirst
      subst isRest
      obtain ⟨reply, next, result, isRun, kept, effect, isReply⟩ :=
        @respond_effect F H root host connection.system sound request.msg
      obtain ⟨rfl, rfl⟩ := Outcome.ok.inj (answered.symm.trans isRun)
      cases later with
      | done => exact ⟨kept, rfl, result, effect, isReply⟩

/-- A directory that is read from its start is put into memory as the host returns it. -/
theorem Served.directory {tag tag' : UInt16} {fields : Treaddir} {data : List UInt8}
    (served : Served host connection [(⟨tag, .readdir fields⟩, ⟨tag', .readdir ⟨⟨data⟩⟩⟩)] final)
    (sound : Sound root [] connection.system) (isStart : fields.offset = 0) :
    ∃ entry entries, connection.system.server.fids fields.fid = some entry ∧
      Directory host entry.path connection.system.fs entries ∧
      Snapshot final.system.server fields.fid entries := by
  generalize isExchange : [((⟨tag, .readdir fields⟩ : Tframe),
    (⟨tag', .readdir ⟨⟨data⟩⟩⟩ : Rframe))] = exchanged at served
  cases served with
  | done => cases isExchange
  | @next _ _ request _ msg system _ read answered later =>
      obtain ⟨isFirst, isRest⟩ := List.cons.inj isExchange
      obtain ⟨rfl, isReply⟩ := Prod.mk.inj isFirst
      subst isRest
      obtain ⟨rfl, rfl⟩ := Rframe.mk.inj isReply
      cases later with
      | done =>
          have answers : Exec.Triple (Stands connection.system.server connection.system.fs)
              (Server.respond host (.readdir fields))
              (fun reply state => (∃ data, reply = .readdir data) →
                ∃ entry entries, connection.system.server.fids fields.fid = some entry ∧
                  Directory host entry.path connection.system.fs entries ∧
                  Snapshot state.server fields.fid entries) fun (_ : Error) _ => False := by
            refine .unwrapOrElse (.bind (readdir_directory sound.sane isStart) fun _ =>
              .pure fun _ holds _ => holds) fun error state _ isReaddir => ?_
            obtain ⟨_, same⟩ := isReaddir
            cases same
          exact answers.ok ⟨rfl, rfl⟩ answered ⟨_, rfl⟩

theorem Served.split {earlier later : List (Tframe × Rframe)}
    (served : Served host connection (earlier ++ later) final) :
    ∃ middle, Served host connection earlier middle ∧ Served host middle later final := by
  induction earlier generalizing connection with
  | nil => exact ⟨connection, .done, served⟩
  | cons exchange earlier ih =>
      cases served with
      | next read answered rest =>
          obtain ⟨middle, isEarlier, isLater⟩ := ih rest
          exact ⟨middle, .next read answered isEarlier, isLater⟩

/-- What is in memory for the fid are the entries of the directory, and what the client has got are the
first of them. -/
structure Partial (host : Host F H) (first final : Connection F H) (fid : UInt32)
    (exchanged : List (Tframe × Rframe)) (listed entries : List Dirent) : Prop where
  snapshot : Snapshot final.system.server fid entries
  readFrom : ReadFrom host first fid exchanged entries
  numbered : Numbered 0 entries
  start : Listable entries → listed <+: entries

/-- The next part is served from what is in memory, which is read from the host if it is the first. -/
theorem reading_step {middle : Connection F H} {tag tag' : UInt16} {fields : Treaddir}
    {data : List UInt8} (sound : Sound root [] connection.system)
    (served : Served host connection exchanged middle)
    (last : Served host middle [(⟨tag, .readdir fields⟩, ⟨tag', .readdir ⟨⟨data⟩⟩⟩)] final)
    (isNext : listed = [] ∨ fields.offset ≠ 0) (isOffset : fields.offset = lastOffset 0 listed)
    (earlier : listed = [] ∨
      ∃ entries, Partial host connection middle fields.fid exchanged listed entries) :
    ∃ entries, Partial host connection final fields.fid
        (exchanged ++ [(⟨tag, .readdir fields⟩, ⟨tag', .readdir ⟨⟨data⟩⟩⟩)]) listed entries ∧
      Listed final.system.server.msize fields entries data := by
  have isSound := (served.view sound).2
  obtain ⟨_, _, result, effect, isReply⟩ := last.single isSound
  rw [answer_readdir isReply] at effect
  generalize isAfter : final.system.server = after at effect
  cases effect with
  | plain isPlain => cases isPlain
  | @readdir _ _ entries _ isFid isStart numbered isListed =>
      obtain rfl := isNext.resolve_right fun isLater => isLater isStart
      obtain ⟨entry, found, isEntry, directory, snapshot⟩ := last.directory isSound isStart
      have isRead : Snapshot final.system.server fields.fid entries :=
        isAfter ▸ ⟨_, Function.update_self .., rfl⟩
      obtain rfl := snapshot.unique isRead
      exact ⟨found, ⟨isRead, ⟨exchanged, _, _, [], middle, entry, rfl, ⟨fields, rfl, rfl, isStart⟩,
        List.forall_mem_nil _, served, isEntry, directory⟩, numbered, fun _ => List.nil_prefix⟩, isListed⟩
  | readdirMore isFid isLater isRead isListed =>
      rcases earlier with rfl | ⟨entries, ⟨found, isFound, isSnapshot⟩, readFrom, numbered, start⟩
      · exact absurd isOffset isLater
      · obtain rfl := Option.some.inj (isFid.symm.trans isFound)
        obtain rfl := Option.some.inj (isRead.symm.trans isSnapshot)
        refine ⟨_, ⟨isAfter ▸ ⟨_, isFid, isRead⟩, readFrom.later ?_, numbered, start⟩, isListed⟩
        rintro ⟨_, same, _, isStart⟩
        cases same
        exact isLater isStart

/-- What the client has got are the first entries of what the server has in memory. -/
theorem reading_snapshot {fid : UInt32} (reading : Reading fid exchanged listed)
    (sound : Sound root [] connection.system)
    (served : Served host connection exchanged final) :
    listed = [] ∨ ∃ entries, Partial host connection final fid exchanged listed entries := by
  induction reading generalizing final with
  | start => exact .inl rfl
  | other reading apart ih =>
      obtain ⟨middle, isEarlier, isLast⟩ := served.split
      obtain ⟨_, _, result, effect, _⟩ := isLast.single (isEarlier.view sound).2
      refine (ih isEarlier).imp_right fun ⟨entries, snapshot, readFrom, numbered, start⟩ => ?_
      exact ⟨entries, effect.snapshot apart snapshot, readFrom.later (not_restarts_of_apart apart),
        numbered, start⟩
  | refused reading isFid isNext ih =>
      obtain ⟨middle, isEarlier, isLast⟩ := served.split
      obtain ⟨_, _, result, effect, isReply⟩ := isLast.single (isEarlier.view sound).2
      rcases isNext with rfl | isLater
      · exact .inl rfl
      · refine (ih isEarlier).imp_right fun ⟨entries, snapshot, readFrom, numbered, start⟩ => ?_
        refine ⟨entries, ?_, readFrom.later ?_, numbered, start⟩
        · rwa [answer_lerror isReply effect isLater]
        · rintro ⟨_, same, _, isStart⟩
          cases same
          exact isLater isStart
  | more reading isFid isNext isOffset decoded ih =>
      obtain ⟨middle, isEarlier, isLast⟩ := served.split
      subst isFid
      obtain ⟨entries, ⟨snapshot, readFrom, numbered, start⟩, isListed⟩ :=
        reading_step sound isEarlier isLast isNext isOffset (ih isEarlier)
      refine .inr ⟨entries, snapshot, readFrom, numbered, fun listable => ?_⟩
      obtain ⟨part, rest, isEntries, isData, fits, _⟩ :=
        listed_next isListed numbered listable (start listable) isOffset
      rw [decoded.eq isData fits, isEntries]
      exact List.prefix_append ..

end Runs

/-- A client that has read a directory until nothing more came has got all of its entries, as the host
returned them when it was read from its start, each of them once and in their order, if there was room
for any one of them. -/
theorem reading_complete {fs : F} {input : List UInt8} {final : Connection F H}
    {exchanged : List (Tframe × Rframe)} {listed entries : List Dirent} {tag tag' : UInt16}
    {fields : Treaddir} (reading : Reading fields.fid exchanged listed)
    (isNext : listed = [] ∨ fields.offset ≠ 0) (isOffset : fields.offset = lastOffset 0 listed)
    (served : Served host (.new root fs input)
      (exchanged ++ [(⟨tag, .readdir fields⟩, ⟨tag', .readdir ⟨⟨[]⟩⟩⟩)]) final)
    (snapshot : Snapshot final.system.server fields.fid entries) (listable : Listable entries)
    (roomy : ∀ entry ∈ entries,
      wireSize entry ≤ readdirRoom final.system.server.msize fields.count) :
    listed = entries ∧ ReadFrom host (.new root fs input) fields.fid
      (exchanged ++ [(⟨tag, .readdir fields⟩, ⟨tag', .readdir ⟨⟨[]⟩⟩⟩)]) listed := by
  have sound : Sound root [] (Connection.new root fs input : Connection F H).system :=
    Server.sound_new root fs
  obtain ⟨middle, isEarlier, isLast⟩ := served.split
  obtain ⟨found, ⟨isSnapshot, readFrom, numbered, start⟩, isListed⟩ :=
    reading_step sound isEarlier isLast isNext isOffset (reading_snapshot reading sound isEarlier)
  obtain rfl := isSnapshot.unique snapshot
  obtain ⟨part, rest, isEntries, isData, fits, isFull⟩ :=
    listed_next isListed numbered listable (start listable) isOffset
  obtain rfl := Decoded.nil.eq isData fits
  cases rest with
  | nil =>
      obtain rfl : found = listed := by simpa using isEntries
      exact ⟨rfl, readFrom⟩
  | cons entry rest =>
      have less := isFull entry (by simp)
      have isRoom := roomy entry (by simp [isEntries])
      rw [List.length_nil] at less
      omega

theorem reading_complete_example : ∃ listed,
    Reading 0 ((exampleRequests.zip exampleReplies).take 2) listed ∧ listed = [exampleEntry] ∧
      ReadFrom exampleHost (.new [.rootDir] () exampleInput) 0 (exampleRequests.zip exampleReplies)
        listed := by
  obtain ⟨final, served, snapshot, isSize⟩ := example_served
  have decoded : Decoded (direntBytes exampleEntry) [exampleEntry] := .cons rfl .nil
  have reading : Reading 0 ((exampleRequests.zip exampleReplies).take 2) ([] ++ [exampleEntry]) :=
    .more (.other .start id) rfl (.inl rfl) rfl decoded
  have short : exampleEntry.name.utf8ByteSize ≤ 65535 := by decide
  have listable : Listable [exampleEntry] :=
    ⟨List.forall_mem_singleton.mpr ⟨⟨trivial, trivial, trivial⟩, trivial, trivial, short⟩, by decide⟩
  have isNext : [] ++ [exampleEntry] = [] ∨ (25 : UInt64) ≠ 0 := .inr (by decide)
  refine ⟨_, reading, @reading_complete Unit Unit [.rootDir] exampleHost () exampleInput final _ _
    [exampleEntry] 3 3 ⟨0, 25, 4096⟩ reading isNext rfl served snapshot listable ?_⟩
  rw [isSize]
  exact List.forall_mem_singleton.mpr (by decide)

end IceCap.NineP
