import Mathlib.Logic.Function.Basic
import IceCap.Library.Triple
import IceCap.NineP.Host

/-!
# The server

A client names files by fids, numbers of its own choice, and the server keeps
for each of them a path below the root.  Every kind of message has its handler;
`handleMessage` reads a request, has it handled and writes the reply.
-/

set_option autoImplicit false

namespace IceCap.NineP

open IceCap.Library

def p9Wronly : UInt32 := 0o00000001
def p9Rdwr : UInt32 := 0o00000002
def p9Noaccess : UInt32 := 0o00000003
def p9Create : UInt32 := 0o00000100
def p9Excl : UInt32 := 0o00000200
def p9Noctty : UInt32 := 0o00000400
def p9Trunc : UInt32 := 0o00001000
def p9Append : UInt32 := 0o00002000
def p9Nonblock : UInt32 := 0o00004000
def p9Dsync : UInt32 := 0o00010000
def p9Fasync : UInt32 := 0o00020000
def p9Direct : UInt32 := 0o00040000
def p9Largefile : UInt32 := 0o00100000
def p9Directory : UInt32 := 0o00200000
def p9Nofollow : UInt32 := 0o00400000
def p9Noatime : UInt32 := 0o01000000
def p9Sync : UInt32 := 0o04000000

/-- `MAPPED_FLAGS` -/
def mappedFlags (libc : Libc) : List (UInt32 × UInt32) := [
  (p9Noctty, libc.oNoctty), (p9Nonblock, libc.oNonblock), (p9Dsync, libc.oDsync),
  (p9Fasync, 0), -- unsupported
  (p9Direct, libc.oDirect), (p9Largefile, libc.oLargefile), (p9Directory, libc.oDirectory),
  (p9Nofollow, libc.oNofollow), (p9Noatime, libc.oNoatime), (p9Sync, libc.oSync)]

def p9Qtdir : UInt8 := 0x80
def p9Qtfile : UInt8 := 0x00

def p9GetattrBasic : UInt64 := 0x000007ff

def p9SetattrMode : UInt32 := 0x00000001
def p9SetattrUid : UInt32 := 0x00000002
def p9SetattrGid : UInt32 := 0x00000004
def p9SetattrSize : UInt32 := 0x00000008
def p9SetattrAtime : UInt32 := 0x00000010
def p9SetattrMtime : UInt32 := 0x00000020
def p9SetattrCtime : UInt32 := 0x00000040
def p9SetattrAtimeSet : UInt32 := 0x00000080
def p9SetattrMtimeSet : UInt32 := 0x00000100

def dtUnknown : UInt8 := 0
def dtDir : UInt8 := 4
def dtReg : UInt8 := 8

def minMessageSize : UInt32 := 256
def maxMessageSize : UInt32 := 65535

structure Fid (H : Type) where
  path : Path
  metadata : Metadata
  file : Option H
  dirents : Option (List Dirent)

structure Server (H : Type) where
  root : Path
  msize : UInt32
  fids : UInt32 → Option (Fid H)

def Server.new {H : Type} (root : Path) : Server H := ⟨root, maxMessageSize, fun _ => none⟩

/-- The server with the file system, and what has been asked of it. -/
structure System (F H : Type) where
  server : Server H
  fs : F
  calls : List (Call H)

def metadataToQid (metadata : Metadata) : Qid :=
  ⟨if metadata.isDir then p9Qtdir else if metadata.isFile then p9Qtfile else 0,
    metadata.stMtime.toUInt64.toUInt32, metadata.stIno⟩

def errorToRmessage (err : Error) : Rmessage :=
  let errno := match err with
    | .os errno => errno
    | .new kind _ => match kind with
        | .notFound => enoent
        | .permissionDenied => eperm
        | .connectionRefused => econnrefused
        | .connectionReset => econnreset
        | .connectionAborted => econnaborted
        | .notConnected => enotconn
        | .addrInUse => eaddrinuse
        | .addrNotAvailable => eaddrnotavail
        | .brokenPipe => epipe
        | .alreadyExists => eexist
        | .wouldBlock => ewouldblock
        | .invalidInput => einval
        | .invalidData => einval
        | .timedOut => etimedout
        | .writeZero => eio
        | .interrupted => eintr
        | .other => eio
        | .unexpectedEof => eio
        | .uncategorized => eio
  .lerror ⟨.ofInt errno⟩

variable {F H α : Type}

/-! ## Parts of handlers -/

/-- Have the file system do it. -/
def perform (host : Host F H) (operation : Operation H α) : Exec Error (System F H) α := fun state =>
  match host.run operation state.fs with
  | (.ok value, fs) =>
      .ok value { state with fs := fs, calls := state.calls ++ [operation.call (.ok value)] }
  | (.error error, fs) =>
      .err error { state with fs := fs, calls := state.calls ++ [operation.call (.error error)] }

/-- `fids.get(&fid)`, with the error where there is none. -/
def getFid (fid : UInt32) (errno : Int) : Exec Error (System F H) (Fid H) := do
  let state ← Exec.get
  Exec.okOr (state.server.fids fid) (.os errno)

def getFile (fid : UInt32) : Exec Error (System F H) H := do
  let state ← Exec.get
  Exec.okOr ((state.server.fids fid).bind Fid.file) (.os ebadf)

def setServer (update : Server H → Server H) : Exec Error (System F H) Unit :=
  Exec.modify fun state => { state with server := update state.server }

def Server.insert (fid : UInt32) (entry : Fid H) (server : Server H) : Server H :=
  { server with fids := Function.update server.fids fid (some entry) }

def Server.erase (fid : UInt32) (server : Server H) : Server H :=
  { server with fids := Function.update server.fids fid none }

/-- How a path below the root is continued. -/
def joinName (path : Path) (name : String) : Exec Error (System F H) Path := do
  let state ← Exec.get
  joinPath path name state.server.root

def customFlags (libc : Libc) (flags : UInt32) : UInt32 :=
  (mappedFlags libc).foldl
    (fun customFlags entry => if flags &&& entry.1 ≠ 0 then customFlags ||| entry.2 else customFlags)
    libc.oCloexec

/-! ## Handlers -/

namespace Server

variable (host : Host F H)

def auth (_auth : Tauth) : Exec Error (System F H) Rauth := Exec.fail (.os eopnotsupp)

def attach (attach : Tattach) : Exec Error (System F H) Rattach := do
  let state ← Exec.get
  Exec.ensure (state.server.fids attach.fid = none) (.os ebadf)
  let metadata ← perform host (.metadata state.server.root)
  setServer (insert attach.fid ⟨state.server.root, metadata, none, none⟩)
  pure ⟨metadataToQid metadata⟩

def version (version : Tversion) : Exec Error (System F H) Rversion := do
  Exec.ensure (minMessageSize ≤ version.msize) (.os einval)
  let msize := min maxMessageSize version.msize
  setServer fun server => { server with fids := fun _ => none, msize := msize }
  pure ⟨msize, if version.version = "9P2000.L" then "9P2000.L" else "unknown"⟩

def flush (_flush : Tflush) : Exec Error (System F H) Unit := pure ()

/-- With the metadata of what has been walked to, also where the walk ends in an error. -/
def doWalk (wnames : List String) (buf : Path) (mds : List Metadata) :
    Exec Error (System F H) (Except Error Path × List Metadata) :=
  match wnames with
  | [] => pure (.ok buf, mds)
  | wname :: wnames => do
      let next ← Exec.attempt do
        let buf ← joinName buf wname
        let md ← perform host (.metadata buf)
        pure (buf, md)
      match next with
      | .ok (buf, md) => doWalk wnames buf (mds ++ [md])
      | .error error => pure (.error error, mds)

def walk (walk : Twalk) : Exec Error (System F H) Rwalk := do
  let state ← Exec.get
  Exec.ensure (walk.fid = walk.newfid ∨ state.server.fids walk.newfid = none) (.os ebadf)
  let fid ← getFid walk.fid ebadf
  let (buf, mds) ← doWalk host walk.wnames fid.path []
  (match buf with
    | .ok buf => Exec.when (mds.length = walk.wnames.length)
        (setServer (insert walk.newfid ⟨buf, mds.getLast?.getD fid.metadata, none, none⟩))
    | .error error => Exec.ensure (mds ≠ []) error)
  pure ⟨mds.map metadataToQid⟩

/-- How many bytes of data there is room for behind the header of the reply. -/
def room (empty : Rmessage) (count : UInt32) : Exec Error (System F H) UInt32 := do
  let state ← Exec.get
  let headerSize := WireFormat.byteSize (⟨0, empty⟩ : Rframe)
  Exec.assert (headerSize ≤ state.server.msize)
  pure (min (state.server.msize - headerSize) count)

def read (read : Tread) : Exec Error (System F H) Rread := do
  let file ← getFile read.fid
  let capacity ← room (.read ⟨⟨[]⟩⟩) read.count
  let data ← perform host (.readAt file capacity.toNat read.offset)
  pure ⟨⟨data⟩⟩

def write (write : Twrite) : Exec Error (System F H) Rwrite := do
  let file ← getFile write.fid
  let count ← perform host (.writeAt file write.data.bytes write.offset)
  pure ⟨.ofNat count⟩

def clunk (clunk : Tclunk) : Exec Error (System F H) Unit := do
  let _ ← getFid clunk.fid ebadf
  setServer (erase clunk.fid)

def remove (remove : Tremove) : Exec Error (System F H) Unit := do
  let fid ← getFid remove.fid ebadf
  setServer (erase remove.fid)
  perform host (if fid.metadata.isDir then .removeDir fid.path else .removeFile fid.path)

/-- `CString::new` refuses the path. -/
def hasNul (path : Path) : Bool := path.any fun component =>
  match component with
  | .normal name => name.toList.contains '\x00'
  | _ => false

def statfs (statfs : Tstatfs) : Exec Error (System F H) Rstatfs := do
  let fid ← getFid statfs.fid ebadf
  Exec.ensure (hasNul fid.path = false) (.os einval)
  let out ← perform host (.statfs fid.path)
  pure ⟨out.ftype.toUInt64.toUInt32, out.fbsize.toUInt64.toUInt32, out.fblocks, out.fbfree,
    out.fbavail, out.ffiles, out.fffree, 0, out.fnamelen.toUInt64.toUInt32⟩

def lopen (lopen : Tlopen) : Exec Error (System F H) Rlopen := do
  let fid ← getFid lopen.fid ebadf
  let file ← perform host (.openFile
    { read := lopen.flags &&& p9Noaccess = 0 ∨ lopen.flags &&& p9Rdwr ≠ 0
      write := lopen.flags &&& p9Wronly ≠ 0 ∨ lopen.flags &&& p9Rdwr ≠ 0
      append := lopen.flags &&& p9Append ≠ 0
      truncate := lopen.flags &&& p9Trunc ≠ 0
      create := lopen.flags &&& p9Create ≠ 0
      createNew := lopen.flags &&& p9Create ≠ 0 ∧ lopen.flags &&& p9Excl ≠ 0
      customFlags := customFlags host.libc lopen.flags } fid.path)
  let metadata ← perform host (.fileMetadata file)
  setServer (insert lopen.fid { fid with metadata := metadata, file := some file })
  pure ⟨metadataToQid metadata, 0⟩

def lcreate (lcreate : Tlcreate) : Exec Error (System F H) Rlcreate := do
  let fid ← getFid lcreate.fid ebadf
  Exec.ensure (fid.metadata.isDir = true) (.os enotdir)
  let path ← joinName fid.path lcreate.name
  let file ← perform host (.openFile
    { read := lcreate.flags &&& p9Noaccess = 0 ∨ lcreate.flags &&& p9Rdwr ≠ 0
      write := lcreate.flags &&& p9Wronly ≠ 0 ∨ lcreate.flags &&& p9Rdwr ≠ 0
      append := lcreate.flags &&& p9Append ≠ 0
      createNew := true
      customFlags := customFlags host.libc lcreate.flags
      mode := lcreate.mode &&& 0o755 } path)
  let metadata ← perform host (.fileMetadata file)
  setServer (insert lcreate.fid { fid with metadata := metadata, file := some file, path := path })
  pure ⟨metadataToQid metadata, 0⟩

def symlink (_symlink : Tsymlink) : Exec Error (System F H) Rsymlink := Exec.fail (.os eacces)

def mknod (_mknod : Tmknod) : Exec Error (System F H) Rmknod := Exec.fail (.os eacces)

def rename (rename : Trename) : Exec Error (System F H) Unit := do
  let dfid ← getFid rename.dfid ebadf
  let newpath ← joinName dfid.path rename.name
  let fid ← getFid rename.fid einval
  perform host (.rename fid.path newpath)
  setServer (insert rename.fid { fid with path := newpath })

def readlink (_readlink : Treadlink) : Exec Error (System F H) Rreadlink := Exec.fail (.os eacces)

def getAttr (getAttr : Tgetattr) : Exec Error (System F H) Rgetattr := do
  let fid ← getFid getAttr.fid ebadf
  let metadata ← perform host (.metadata fid.path)
  setServer (insert getAttr.fid { fid with metadata := metadata })
  pure {
    valid := p9GetattrBasic
    qid := metadataToQid metadata
    mode := metadata.stMode
    uid := metadata.stUid
    gid := metadata.stGid
    nlink := metadata.stNlink
    rdev := metadata.stRdev
    size := metadata.stSize
    blksize := metadata.stBlksize
    blocks := metadata.stBlocks
    atimeSec := metadata.stAtime.toUInt64
    atimeNsec := metadata.stAtimeNsec.toUInt64
    mtimeSec := metadata.stMtime.toUInt64
    mtimeNsec := metadata.stMtimeNsec.toUInt64
    ctimeSec := metadata.stCtime.toUInt64
    ctimeNsec := metadata.stCtimeNsec.toUInt64
    btimeSec := 0
    btimeNsec := 0
    gen := 0
    dataVersion := 0 }

/-- One of the times of `futimens`: left out, the current one, or the one that is given. -/
def timespec (valid given set : UInt32) (sec nsec : UInt64) : Timespec :=
  ⟨sec.toInt64,
    if valid &&& given = 0 then host.libc.utimeOmit
    else if valid &&& set = 0 then host.libc.utimeNow
    else nsec.toInt64⟩

def setAttr (setAttr : Tsetattr) : Exec Error (System F H) Unit := do
  Exec.ensure (setAttr.valid &&& (p9SetattrMode ||| p9SetattrUid ||| p9SetattrGid) = 0) (.os eperm)
  let fid ← getFid setAttr.fid ebadf
  let file ← perform host (.openFile { write := true } fid.path)
  Exec.when (setAttr.valid &&& p9SetattrSize ≠ 0) do
    perform host (.setLen file setAttr.size)
  Exec.when (setAttr.valid &&& (p9SetattrAtime ||| p9SetattrMtime) ≠ 0) do
    perform host (.futimens file
      (timespec host setAttr.valid p9SetattrAtime p9SetattrAtimeSet setAttr.atimeSec
        setAttr.atimeNsec)
      (timespec host setAttr.valid p9SetattrMtime p9SetattrMtimeSet setAttr.mtimeSec
        setAttr.mtimeNsec))
  Exec.when (setAttr.valid &&& p9SetattrCtime ≠ 0 ∧ setAttr.valid &&& ~~~p9SetattrCtime = 0) do
    perform host (.fchown file 0xffffffff 0xffffffff)

def xattrWalk (_xattrWalk : Txattrwalk) : Exec Error (System F H) Rxattrwalk :=
  Exec.fail (.os eopnotsupp)

def xattrCreate (_xattrCreate : Txattrcreate) : Exec Error (System F H) Unit :=
  Exec.fail (.os eopnotsupp)

/-- One item of the directory; the offset is the one behind the items before it. -/
def dirent (path : Path) (offset : UInt64) (item : Except Error (List UInt8)) :
    Exec Error (System F H) Dirent := do
  let name ← (match item with
    | .ok name => pure name
    | .error error => Exec.fail error)
  let md ← perform host (.entryMetadata path name)
  let ty := if md.isDir then dtDir else if md.isFile then dtReg else dtUnknown
  let name ← Exec.okOr (String.fromUTF8? name.toByteArray) (.os einval)
  let out : Dirent := ⟨metadataToQid md, 0, ty, name⟩
  pure { out with offset := offset + (WireFormat.byteSize out).toUInt64 }

def dirents (path : Path) (offset : UInt64) (items : List (Except Error (List UInt8))) :
    Exec Error (System F H) (List Dirent) :=
  match items with
  | [] => pure []
  | item :: items => do
      let entry ← dirent host path offset item
      let entries ← dirents path entry.offset items
      pure (entry :: entries)

/-- Encode entries as long as there is room for them. -/
def fill (capacity : Nat) (entries : List Dirent) : Exec Error (List UInt8) Unit :=
  match entries with
  | [] => pure ()
  | entry :: entries => do
      let cursor ← Exec.get
      if capacity - cursor.length < (WireFormat.byteSize entry).toNat then pure () else do
        WireFormat.encode entry
        fill capacity entries

/-- The directory is read in whole if the offset is 0, and other offsets are served from memory. -/
def readdir (readdir : Treaddir) : Exec Error (System F H) Rreaddir := do
  let fid ← getFid readdir.fid ebadf
  Exec.ensure (fid.metadata.isDir = true) (.os enotdir)
  Exec.when (readdir.offset = 0) do
    let items ← perform host (.readDir fid.path)
    let entries ← dirents host fid.path 0 items
    setServer (insert readdir.fid { fid with dirents := some entries })
  let fid ← getFid readdir.fid ebadf
  let entries ← Exec.okOr fid.dirents (.os ebadf)
  let count ← room (.readdir ⟨⟨[]⟩⟩) readdir.count
  let data ← Exec.on [] do
    fill count.toNat (entries.dropWhile fun entry => entry.offset ≤ readdir.offset)
    Exec.get
  pure ⟨⟨data⟩⟩

def fsync (fsync : Tfsync) : Exec Error (System F H) Unit := do
  let file ← getFile fsync.fid
  perform host (if fsync.datasync = 0 then .syncAll file else .syncData file)

def lock (_lock : Tlock) : Exec Error (System F H) Rlock := Exec.fail (.os eopnotsupp)

def getLock (_getLock : Tgetlock) : Exec Error (System F H) Rgetlock := Exec.fail (.os eopnotsupp)

def link (link : Tlink) : Exec Error (System F H) Unit := do
  let dfid ← getFid link.dfid ebadf
  let newpath ← joinName dfid.path link.name
  let fid ← getFid link.fid ebadf
  perform host (.hardLink fid.path newpath)

def mkdir (mkdir : Tmkdir) : Exec Error (System F H) Rmkdir := do
  let fid ← getFid mkdir.dfid ebadf
  let newpath ← joinName fid.path mkdir.name
  perform host (.createDir (mkdir.mode &&& 0o755) newpath)
  let metadata ← perform host (.metadata newpath)
  pure ⟨metadataToQid metadata⟩

def renameAt (renameAt : Trenameat) : Exec Error (System F H) Unit := do
  let oldfid ← getFid renameAt.olddirfid ebadf
  let oldpath ← joinName oldfid.path renameAt.oldname
  let newfid ← getFid renameAt.newdirfid ebadf
  let newpath ← joinName newfid.path renameAt.newname
  perform host (.rename oldpath newpath)

def unlinkAt (unlinkAt : Tunlinkat) : Exec Error (System F H) Unit := do
  let fid ← getFid unlinkAt.dirfd ebadf
  let path ← joinName fid.path unlinkAt.name
  let md ← perform host (.metadata path)
  Exec.ensure (¬ (md.isDir = true ∧ unlinkAt.flags &&& host.libc.atRemovedir = 0)) (.os eisdir)
  perform host (if md.isDir then .removeDir path else .removeFile path)

/-! ## Messages -/

/-- `map`, and `and` where the reply has no fields. -/
def reply (make : α → Rmessage) (call : Exec Error (System F H) α) :
    Exec Error (System F H) Rmessage := do
  let value ← call
  pure (make value)

/-- The `match` in `handle_message`. -/
def handle (msg : Tmessage) : Exec Error (System F H) Rmessage :=
  match msg with
  | .version fields => reply .version (version fields)
  | .flush fields => reply (fun _ => .flush) (flush fields)
  | .walk fields => reply .walk (walk host fields)
  | .read fields => reply .read (read host fields)
  | .write fields => reply .write (write host fields)
  | .clunk fields => reply (fun _ => .clunk) (clunk fields)
  | .remove fields => reply (fun _ => .remove) (remove host fields)
  | .attach fields => reply .attach (attach host fields)
  | .auth fields => reply .auth (auth fields)
  | .statfs fields => reply .statfs (statfs host fields)
  | .lopen fields => reply .lopen (lopen host fields)
  | .lcreate fields => reply .lcreate (lcreate host fields)
  | .symlink fields => reply .symlink (symlink fields)
  | .mknod fields => reply .mknod (mknod fields)
  | .rename fields => reply (fun _ => .rename) (rename host fields)
  | .readlink fields => reply .readlink (readlink fields)
  | .getAttr fields => reply .getAttr (getAttr host fields)
  | .setAttr fields => reply (fun _ => .setAttr) (setAttr host fields)
  | .xattrWalk fields => reply .xattrWalk (xattrWalk fields)
  | .xattrCreate fields => reply (fun _ => .xattrCreate) (xattrCreate fields)
  | .readdir fields => reply .readdir (readdir host fields)
  | .fsync fields => reply (fun _ => .fsync) (fsync host fields)
  | .lock fields => reply .lock (lock fields)
  | .getLock fields => reply .getLock (getLock fields)
  | .link fields => reply (fun _ => .link) (link host fields)
  | .mkdir fields => reply .mkdir (mkdir host fields)
  | .renameAt fields => reply (fun _ => .renameAt) (renameAt host fields)
  | .unlinkAt fields => reply (fun _ => .unlinkAt) (unlinkAt host fields)

/-- Errors while handling requests are never fatal. -/
def respond (msg : Tmessage) : Exec Error (System F H) Rmessage :=
  Exec.unwrapOrElse (handle host msg) errorToRmessage

end Server

/-- The server with what there is to read from its client and what it has written to it. -/
structure Connection (F H : Type) where
  system : System F H
  input : List UInt8
  output : List UInt8

def Server.handleMessage (host : Host F H) : Exec Error (Connection F H) Unit := do
  let connection ← Exec.get
  let request : Tframe ← Exec.focus Connection.input
    (fun input connection => { connection with input := input })
    (Codec.limited connection.system.server.msize.toNat WireFormat.decode)
  let msg ← Exec.focus Connection.system
    (fun system connection => { connection with system := system })
    (Server.respond host request.msg)
  Exec.focus Connection.output (fun output connection => { connection with output := output })
    (WireFormat.encode (⟨request.tag, msg⟩ : Rframe))

/-- So many rounds of the loop of `handle_client`, which only an error ends. -/
def handleClient (host : Host F H) : Nat → Exec Error (Connection F H) Unit
  | 0 => pure ()
  | rounds + 1 => do
      Server.handleMessage host
      handleClient host rounds

def Connection.new (root : Path) (fs : F) (input : List UInt8) : Connection F H :=
  ⟨⟨.new root, fs, []⟩, input, []⟩

end IceCap.NineP
