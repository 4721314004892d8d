import IceCap.NineP.WireFormat

/-!
# The messages of 9P

What clients send and what the server replies, with the fields in the order in
which they are on the wire.  Every message has a type byte, and that of a reply
is one more than that of the request.
-/

set_option autoImplicit false

namespace IceCap.NineP

open IceCap.Library

/-! ## Types of messages -/

def tLerror : UInt8 := 6
def rLerror : UInt8 := tLerror + 1
def tStatfs : UInt8 := 8
def rStatfs : UInt8 := tStatfs + 1
def tLopen : UInt8 := 12
def rLopen : UInt8 := tLopen + 1
def tLcreate : UInt8 := 14
def rLcreate : UInt8 := tLcreate + 1
def tSymlink : UInt8 := 16
def rSymlink : UInt8 := tSymlink + 1
def tMknod : UInt8 := 18
def rMknod : UInt8 := tMknod + 1
def tRename : UInt8 := 20
def rRename : UInt8 := tRename + 1
def tReadlink : UInt8 := 22
def rReadlink : UInt8 := tReadlink + 1
def tGetAttr : UInt8 := 24
def rGetAttr : UInt8 := tGetAttr + 1
def tSetAttr : UInt8 := 26
def rSetAttr : UInt8 := tSetAttr + 1
def tXattrWalk : UInt8 := 30
def rXattrWalk : UInt8 := tXattrWalk + 1
def tXattrCreate : UInt8 := 32
def rXattrCreate : UInt8 := tXattrCreate + 1
def tReaddir : UInt8 := 40
def rReaddir : UInt8 := tReaddir + 1
def tFsync : UInt8 := 50
def rFsync : UInt8 := tFsync + 1
def tLock : UInt8 := 52
def rLock : UInt8 := tLock + 1
def tGetLock : UInt8 := 54
def rGetLock : UInt8 := tGetLock + 1
def tLink : UInt8 := 70
def rLink : UInt8 := tLink + 1
def tMkdir : UInt8 := 72
def rMkdir : UInt8 := tMkdir + 1
def tRenameAt : UInt8 := 74
def rRenameAt : UInt8 := tRenameAt + 1
def tUnlinkAt : UInt8 := 76
def rUnlinkAt : UInt8 := tUnlinkAt + 1
def tVersion : UInt8 := 100
def rVersion : UInt8 := tVersion + 1
def tAuth : UInt8 := 102
def rAuth : UInt8 := tAuth + 1
def tAttach : UInt8 := 104
def rAttach : UInt8 := tAttach + 1
def tFlush : UInt8 := 108
def rFlush : UInt8 := tFlush + 1
def tWalk : UInt8 := 110
def rWalk : UInt8 := tWalk + 1
def tRead : UInt8 := 116
def rRead : UInt8 := tRead + 1
def tWrite : UInt8 := 118
def rWrite : UInt8 := tWrite + 1
def tClunk : UInt8 := 120
def rClunk : UInt8 := tClunk + 1
def tRemove : UInt8 := 122
def rRemove : UInt8 := tRemove + 1

/-! ## Requests -/

structure Tversion where
  msize : UInt32
  version : String

structure Tflush where
  oldtag : UInt16

structure Twalk where
  fid : UInt32
  newfid : UInt32
  wnames : List String

structure Tread where
  fid : UInt32
  offset : UInt64
  count : UInt32

structure Twrite where
  fid : UInt32
  offset : UInt64
  data : Data

structure Tclunk where
  fid : UInt32

structure Tremove where
  fid : UInt32

structure Tauth where
  afid : UInt32
  uname : String
  aname : String
  nUname : UInt32

structure Tattach where
  fid : UInt32
  afid : UInt32
  uname : String
  aname : String
  nUname : UInt32

structure Tstatfs where
  fid : UInt32

structure Tlopen where
  fid : UInt32
  flags : UInt32

structure Tlcreate where
  fid : UInt32
  name : String
  flags : UInt32
  mode : UInt32
  gid : UInt32

structure Tsymlink where
  fid : UInt32
  name : String
  symtgt : String
  gid : UInt32

structure Tmknod where
  dfid : UInt32
  name : String
  mode : UInt32
  major : UInt32
  minor : UInt32
  gid : UInt32

structure Trename where
  fid : UInt32
  dfid : UInt32
  name : String

structure Treadlink where
  fid : UInt32

structure Tgetattr where
  fid : UInt32
  requestMask : UInt64

structure Tsetattr where
  fid : UInt32
  valid : UInt32
  mode : UInt32
  uid : UInt32
  gid : UInt32
  size : UInt64
  atimeSec : UInt64
  atimeNsec : UInt64
  mtimeSec : UInt64
  mtimeNsec : UInt64

structure Txattrwalk where
  fid : UInt32
  newfid : UInt32
  name : String

structure Txattrcreate where
  fid : UInt32
  name : String
  attrSize : UInt64
  flags : UInt32

structure Treaddir where
  fid : UInt32
  offset : UInt64
  count : UInt32

structure Tfsync where
  fid : UInt32
  datasync : UInt32

structure Tlock where
  fid : UInt32
  type_ : UInt8
  flags : UInt32
  start : UInt64
  length : UInt64
  procId : UInt32
  clientId : String

structure Tgetlock where
  fid : UInt32
  type_ : UInt8
  start : UInt64
  length : UInt64
  procId : UInt32
  clientId : String

structure Tlink where
  dfid : UInt32
  fid : UInt32
  name : String

structure Tmkdir where
  dfid : UInt32
  name : String
  mode : UInt32
  gid : UInt32

structure Trenameat where
  olddirfid : UInt32
  oldname : String
  newdirfid : UInt32
  newname : String

structure Tunlinkat where
  dirfd : UInt32
  name : String
  flags : UInt32

instance wireFormatTversion : WireFormat Tversion :=
  p9WireFormat (fun m => (m.msize, m.version)) fun (msize, version) => ⟨msize, version⟩
instance lawfulTversion : LawfulWireFormat Tversion := p9Lawful (fun _ => rfl) fun _ => rfl

instance wireFormatTflush : WireFormat Tflush :=
  p9WireFormat (fun m => m.oldtag) fun oldtag => ⟨oldtag⟩
instance lawfulTflush : LawfulWireFormat Tflush := p9Lawful (fun _ => rfl) fun _ => rfl

instance wireFormatTwalk : WireFormat Twalk :=
  p9WireFormat (fun m => (m.fid, m.newfid, m.wnames)) fun (fid, newfid, wnames) =>
    ⟨fid, newfid, wnames⟩
instance lawfulTwalk : LawfulWireFormat Twalk := p9Lawful (fun _ => rfl) fun _ => rfl

instance wireFormatTread : WireFormat Tread :=
  p9WireFormat (fun m => (m.fid, m.offset, m.count)) fun (fid, offset, count) =>
    ⟨fid, offset, count⟩
instance lawfulTread : LawfulWireFormat Tread := p9Lawful (fun _ => rfl) fun _ => rfl

instance wireFormatTwrite : WireFormat Twrite :=
  p9WireFormat (fun m => (m.fid, m.offset, m.data)) fun (fid, offset, data) => ⟨fid, offset, data⟩
instance lawfulTwrite : LawfulWireFormat Twrite := p9Lawful (fun _ => rfl) fun _ => rfl

instance wireFormatTclunk : WireFormat Tclunk :=
  p9WireFormat (fun m => m.fid) fun fid => ⟨fid⟩
instance lawfulTclunk : LawfulWireFormat Tclunk := p9Lawful (fun _ => rfl) fun _ => rfl

instance wireFormatTremove : WireFormat Tremove :=
  p9WireFormat (fun m => m.fid) fun fid => ⟨fid⟩
instance lawfulTremove : LawfulWireFormat Tremove := p9Lawful (fun _ => rfl) fun _ => rfl

instance wireFormatTauth : WireFormat Tauth :=
  p9WireFormat (fun m => (m.afid, m.uname, m.aname, m.nUname)) fun (afid, uname, aname, nUname) =>
    ⟨afid, uname, aname, nUname⟩
instance lawfulTauth : LawfulWireFormat Tauth := p9Lawful (fun _ => rfl) fun _ => rfl

instance wireFormatTattach : WireFormat Tattach :=
  p9WireFormat (fun m => (m.fid, m.afid, m.uname, m.aname, m.nUname))
    fun (fid, afid, uname, aname, nUname) => ⟨fid, afid, uname, aname, nUname⟩
instance lawfulTattach : LawfulWireFormat Tattach := p9Lawful (fun _ => rfl) fun _ => rfl

instance wireFormatTstatfs : WireFormat Tstatfs :=
  p9WireFormat (fun m => m.fid) fun fid => ⟨fid⟩
instance lawfulTstatfs : LawfulWireFormat Tstatfs := p9Lawful (fun _ => rfl) fun _ => rfl

instance wireFormatTlopen : WireFormat Tlopen :=
  p9WireFormat (fun m => (m.fid, m.flags)) fun (fid, flags) => ⟨fid, flags⟩
instance lawfulTlopen : LawfulWireFormat Tlopen := p9Lawful (fun _ => rfl) fun _ => rfl

instance wireFormatTlcreate : WireFormat Tlcreate :=
  p9WireFormat (fun m => (m.fid, m.name, m.flags, m.mode, m.gid))
    fun (fid, name, flags, mode, gid) => ⟨fid, name, flags, mode, gid⟩
instance lawfulTlcreate : LawfulWireFormat Tlcreate := p9Lawful (fun _ => rfl) fun _ => rfl

instance wireFormatTsymlink : WireFormat Tsymlink :=
  p9WireFormat (fun m => (m.fid, m.name, m.symtgt, m.gid)) fun (fid, name, symtgt, gid) =>
    ⟨fid, name, symtgt, gid⟩
instance lawfulTsymlink : LawfulWireFormat Tsymlink := p9Lawful (fun _ => rfl) fun _ => rfl

instance wireFormatTmknod : WireFormat Tmknod :=
  p9WireFormat (fun m => (m.dfid, m.name, m.mode, m.major, m.minor, m.gid))
    fun (dfid, name, mode, major, minor, gid) => ⟨dfid, name, mode, major, minor, gid⟩
instance lawfulTmknod : LawfulWireFormat Tmknod := p9Lawful (fun _ => rfl) fun _ => rfl

instance wireFormatTrename : WireFormat Trename :=
  p9WireFormat (fun m => (m.fid, m.dfid, m.name)) fun (fid, dfid, name) => ⟨fid, dfid, name⟩
instance lawfulTrename : LawfulWireFormat Trename := p9Lawful (fun _ => rfl) fun _ => rfl

instance wireFormatTreadlink : WireFormat Treadlink :=
  p9WireFormat (fun m => m.fid) fun fid => ⟨fid⟩
instance lawfulTreadlink : LawfulWireFormat Treadlink := p9Lawful (fun _ => rfl) fun _ => rfl

instance wireFormatTgetattr : WireFormat Tgetattr :=
  p9WireFormat (fun m => (m.fid, m.requestMask)) fun (fid, requestMask) => ⟨fid, requestMask⟩
instance lawfulTgetattr : LawfulWireFormat Tgetattr := p9Lawful (fun _ => rfl) fun _ => rfl

instance wireFormatTsetattr : WireFormat Tsetattr :=
  p9WireFormat (fun m => (m.fid, m.valid, m.mode, m.uid, m.gid, m.size, m.atimeSec, m.atimeNsec,
    m.mtimeSec, m.mtimeNsec))
    fun (fid, valid, mode, uid, gid, size, atimeSec, atimeNsec, mtimeSec, mtimeNsec) =>
      ⟨fid, valid, mode, uid, gid, size, atimeSec, atimeNsec, mtimeSec, mtimeNsec⟩
instance lawfulTsetattr : LawfulWireFormat Tsetattr := p9Lawful (fun _ => rfl) fun _ => rfl

instance wireFormatTxattrwalk : WireFormat Txattrwalk :=
  p9WireFormat (fun m => (m.fid, m.newfid, m.name)) fun (fid, newfid, name) => ⟨fid, newfid, name⟩
instance lawfulTxattrwalk : LawfulWireFormat Txattrwalk := p9Lawful (fun _ => rfl) fun _ => rfl

instance wireFormatTxattrcreate : WireFormat Txattrcreate :=
  p9WireFormat (fun m => (m.fid, m.name, m.attrSize, m.flags)) fun (fid, name, attrSize, flags) =>
    ⟨fid, name, attrSize, flags⟩
instance lawfulTxattrcreate : LawfulWireFormat Txattrcreate := p9Lawful (fun _ => rfl) fun _ => rfl

instance wireFormatTreaddir : WireFormat Treaddir :=
  p9WireFormat (fun m => (m.fid, m.offset, m.count)) fun (fid, offset, count) =>
    ⟨fid, offset, count⟩
instance lawfulTreaddir : LawfulWireFormat Treaddir := p9Lawful (fun _ => rfl) fun _ => rfl

instance wireFormatTfsync : WireFormat Tfsync :=
  p9WireFormat (fun m => (m.fid, m.datasync)) fun (fid, datasync) => ⟨fid, datasync⟩
instance lawfulTfsync : LawfulWireFormat Tfsync := p9Lawful (fun _ => rfl) fun _ => rfl

instance wireFormatTlock : WireFormat Tlock :=
  p9WireFormat (fun m => (m.fid, m.type_, m.flags, m.start, m.length, m.procId, m.clientId))
    fun (fid, type_, flags, start, length, procId, clientId) =>
      ⟨fid, type_, flags, start, length, procId, clientId⟩
instance lawfulTlock : LawfulWireFormat Tlock := p9Lawful (fun _ => rfl) fun _ => rfl

instance wireFormatTgetlock : WireFormat Tgetlock :=
  p9WireFormat (fun m => (m.fid, m.type_, m.start, m.length, m.procId, m.clientId))
    fun (fid, type_, start, length, procId, clientId) =>
      ⟨fid, type_, start, length, procId, clientId⟩
instance lawfulTgetlock : LawfulWireFormat Tgetlock := p9Lawful (fun _ => rfl) fun _ => rfl

instance wireFormatTlink : WireFormat Tlink :=
  p9WireFormat (fun m => (m.dfid, m.fid, m.name)) fun (dfid, fid, name) => ⟨dfid, fid, name⟩
instance lawfulTlink : LawfulWireFormat Tlink := p9Lawful (fun _ => rfl) fun _ => rfl

instance wireFormatTmkdir : WireFormat Tmkdir :=
  p9WireFormat (fun m => (m.dfid, m.name, m.mode, m.gid)) fun (dfid, name, mode, gid) =>
    ⟨dfid, name, mode, gid⟩
instance lawfulTmkdir : LawfulWireFormat Tmkdir := p9Lawful (fun _ => rfl) fun _ => rfl

instance wireFormatTrenameat : WireFormat Trenameat :=
  p9WireFormat (fun m => (m.olddirfid, m.oldname, m.newdirfid, m.newname))
    fun (olddirfid, oldname, newdirfid, newname) => ⟨olddirfid, oldname, newdirfid, newname⟩
instance lawfulTrenameat : LawfulWireFormat Trenameat := p9Lawful (fun _ => rfl) fun _ => rfl

instance wireFormatTunlinkat : WireFormat Tunlinkat :=
  p9WireFormat (fun m => (m.dirfd, m.name, m.flags)) fun (dirfd, name, flags) =>
    ⟨dirfd, name, flags⟩
instance lawfulTunlinkat : LawfulWireFormat Tunlinkat := p9Lawful (fun _ => rfl) fun _ => rfl

inductive Tmessage where
  | version (fields : Tversion) | flush (fields : Tflush) | walk (fields : Twalk)
  | read (fields : Tread) | write (fields : Twrite) | clunk (fields : Tclunk)
  | remove (fields : Tremove) | attach (fields : Tattach) | auth (fields : Tauth)
  | statfs (fields : Tstatfs) | lopen (fields : Tlopen) | lcreate (fields : Tlcreate)
  | symlink (fields : Tsymlink) | mknod (fields : Tmknod) | rename (fields : Trename)
  | readlink (fields : Treadlink) | getAttr (fields : Tgetattr) | setAttr (fields : Tsetattr)
  | xattrWalk (fields : Txattrwalk) | xattrCreate (fields : Txattrcreate)
  | readdir (fields : Treaddir) | fsync (fields : Tfsync) | lock (fields : Tlock)
  | getLock (fields : Tgetlock) | link (fields : Tlink) | mkdir (fields : Tmkdir)
  | renameAt (fields : Trenameat) | unlinkAt (fields : Tunlinkat)

/-! ## Replies -/

structure Qid where
  ty : UInt8
  version : UInt32
  path : UInt64

structure Dirent where
  qid : Qid
  offset : UInt64
  ty : UInt8
  name : String

structure Rversion where
  msize : UInt32
  version : String

structure Rwalk where
  wqids : List Qid

structure Rread where
  data : Data

structure Rwrite where
  count : UInt32

structure Rauth where
  aqid : Qid

structure Rattach where
  qid : Qid

structure Rlerror where
  ecode : UInt32

structure Rstatfs where
  ty : UInt32
  bsize : UInt32
  blocks : UInt64
  bfree : UInt64
  bavail : UInt64
  files : UInt64
  ffree : UInt64
  fsid : UInt64
  namelen : UInt32

structure Rlopen where
  qid : Qid
  iounit : UInt32

structure Rlcreate where
  qid : Qid
  iounit : UInt32

structure Rsymlink where
  qid : Qid

structure Rmknod where
  qid : Qid

structure Rreadlink where
  target : String

structure Rgetattr where
  valid : UInt64
  qid : Qid
  mode : UInt32
  uid : UInt32
  gid : UInt32
  nlink : UInt64
  rdev : UInt64
  size : UInt64
  blksize : UInt64
  blocks : UInt64
  atimeSec : UInt64
  atimeNsec : UInt64
  mtimeSec : UInt64
  mtimeNsec : UInt64
  ctimeSec : UInt64
  ctimeNsec : UInt64
  btimeSec : UInt64
  btimeNsec : UInt64
  gen : UInt64
  dataVersion : UInt64

structure Rxattrwalk where
  size : UInt64

structure Rreaddir where
  data : Data

structure Rlock where
  status : UInt8

structure Rgetlock where
  ty : UInt8
  start : UInt64
  length : UInt64
  procId : UInt32
  clientId : String

structure Rmkdir where
  qid : Qid

instance wireFormatQid : WireFormat Qid :=
  p9WireFormat (fun m => (m.ty, m.version, m.path)) fun (ty, version, path) => ⟨ty, version, path⟩
instance lawfulQid : LawfulWireFormat Qid := p9Lawful (fun _ => rfl) fun _ => rfl

instance wireFormatDirent : WireFormat Dirent :=
  p9WireFormat (fun m => (m.qid, m.offset, m.ty, m.name)) fun (qid, offset, ty, name) =>
    ⟨qid, offset, ty, name⟩
instance lawfulDirent : LawfulWireFormat Dirent := p9Lawful (fun _ => rfl) fun _ => rfl

instance wireFormatRversion : WireFormat Rversion :=
  p9WireFormat (fun m => (m.msize, m.version)) fun (msize, version) => ⟨msize, version⟩
instance lawfulRversion : LawfulWireFormat Rversion := p9Lawful (fun _ => rfl) fun _ => rfl

instance wireFormatRwalk : WireFormat Rwalk :=
  p9WireFormat (fun m => m.wqids) fun wqids => ⟨wqids⟩
instance lawfulRwalk : LawfulWireFormat Rwalk := p9Lawful (fun _ => rfl) fun _ => rfl

instance wireFormatRread : WireFormat Rread :=
  p9WireFormat (fun m => m.data) fun data => ⟨data⟩
instance lawfulRread : LawfulWireFormat Rread := p9Lawful (fun _ => rfl) fun _ => rfl

instance wireFormatRwrite : WireFormat Rwrite :=
  p9WireFormat (fun m => m.count) fun count => ⟨count⟩
instance lawfulRwrite : LawfulWireFormat Rwrite := p9Lawful (fun _ => rfl) fun _ => rfl

instance wireFormatRauth : WireFormat Rauth :=
  p9WireFormat (fun m => m.aqid) fun aqid => ⟨aqid⟩
instance lawfulRauth : LawfulWireFormat Rauth := p9Lawful (fun _ => rfl) fun _ => rfl

instance wireFormatRattach : WireFormat Rattach :=
  p9WireFormat (fun m => m.qid) fun qid => ⟨qid⟩
instance lawfulRattach : LawfulWireFormat Rattach := p9Lawful (fun _ => rfl) fun _ => rfl

instance wireFormatRlerror : WireFormat Rlerror :=
  p9WireFormat (fun m => m.ecode) fun ecode => ⟨ecode⟩
instance lawfulRlerror : LawfulWireFormat Rlerror := p9Lawful (fun _ => rfl) fun _ => rfl

instance wireFormatRstatfs : WireFormat Rstatfs :=
  p9WireFormat (fun m => (m.ty, m.bsize, m.blocks, m.bfree, m.bavail, m.files, m.ffree, m.fsid,
    m.namelen))
    fun (ty, bsize, blocks, bfree, bavail, files, ffree, fsid, namelen) =>
      ⟨ty, bsize, blocks, bfree, bavail, files, ffree, fsid, namelen⟩
instance lawfulRstatfs : LawfulWireFormat Rstatfs := p9Lawful (fun _ => rfl) fun _ => rfl

instance wireFormatRlopen : WireFormat Rlopen :=
  p9WireFormat (fun m => (m.qid, m.iounit)) fun (qid, iounit) => ⟨qid, iounit⟩
instance lawfulRlopen : LawfulWireFormat Rlopen := p9Lawful (fun _ => rfl) fun _ => rfl

instance wireFormatRlcreate : WireFormat Rlcreate :=
  p9WireFormat (fun m => (m.qid, m.iounit)) fun (qid, iounit) => ⟨qid, iounit⟩
instance lawfulRlcreate : LawfulWireFormat Rlcreate := p9Lawful (fun _ => rfl) fun _ => rfl

instance wireFormatRsymlink : WireFormat Rsymlink :=
  p9WireFormat (fun m => m.qid) fun qid => ⟨qid⟩
instance lawfulRsymlink : LawfulWireFormat Rsymlink := p9Lawful (fun _ => rfl) fun _ => rfl

instance wireFormatRmknod : WireFormat Rmknod :=
  p9WireFormat (fun m => m.qid) fun qid => ⟨qid⟩
instance lawfulRmknod : LawfulWireFormat Rmknod := p9Lawful (fun _ => rfl) fun _ => rfl

instance wireFormatRreadlink : WireFormat Rreadlink :=
  p9WireFormat (fun m => m.target) fun target => ⟨target⟩
instance lawfulRreadlink : LawfulWireFormat Rreadlink := p9Lawful (fun _ => rfl) fun _ => rfl

instance wireFormatRgetattr : WireFormat Rgetattr :=
  p9WireFormat (fun m => (m.valid, m.qid, m.mode, m.uid, m.gid, m.nlink, m.rdev, m.size,
    m.blksize, m.blocks, m.atimeSec, m.atimeNsec, m.mtimeSec, m.mtimeNsec, m.ctimeSec,
    m.ctimeNsec, m.btimeSec, m.btimeNsec, m.gen, m.dataVersion))
    fun (valid, qid, mode, uid, gid, nlink, rdev, size, blksize, blocks, atimeSec, atimeNsec,
      mtimeSec, mtimeNsec, ctimeSec, ctimeNsec, btimeSec, btimeNsec, gen, dataVersion) =>
      ⟨valid, qid, mode, uid, gid, nlink, rdev, size, blksize, blocks, atimeSec, atimeNsec,
        mtimeSec, mtimeNsec, ctimeSec, ctimeNsec, btimeSec, btimeNsec, gen, dataVersion⟩
instance lawfulRgetattr : LawfulWireFormat Rgetattr := p9Lawful (fun _ => rfl) fun _ => rfl

instance wireFormatRxattrwalk : WireFormat Rxattrwalk :=
  p9WireFormat (fun m => m.size) fun size => ⟨size⟩
instance lawfulRxattrwalk : LawfulWireFormat Rxattrwalk := p9Lawful (fun _ => rfl) fun _ => rfl

instance wireFormatRreaddir : WireFormat Rreaddir :=
  p9WireFormat (fun m => m.data) fun data => ⟨data⟩
instance lawfulRreaddir : LawfulWireFormat Rreaddir := p9Lawful (fun _ => rfl) fun _ => rfl

instance wireFormatRlock : WireFormat Rlock :=
  p9WireFormat (fun m => m.status) fun status => ⟨status⟩
instance lawfulRlock : LawfulWireFormat Rlock := p9Lawful (fun _ => rfl) fun _ => rfl

instance wireFormatRgetlock : WireFormat Rgetlock :=
  p9WireFormat (fun m => (m.ty, m.start, m.length, m.procId, m.clientId))
    fun (ty, start, length, procId, clientId) => ⟨ty, start, length, procId, clientId⟩
instance lawfulRgetlock : LawfulWireFormat Rgetlock := p9Lawful (fun _ => rfl) fun _ => rfl

instance wireFormatRmkdir : WireFormat Rmkdir :=
  p9WireFormat (fun m => m.qid) fun qid => ⟨qid⟩
instance lawfulRmkdir : LawfulWireFormat Rmkdir := p9Lawful (fun _ => rfl) fun _ => rfl

inductive Rmessage where
  | version (fields : Rversion) | flush | walk (fields : Rwalk) | read (fields : Rread)
  | write (fields : Rwrite) | clunk | remove | attach (fields : Rattach) | auth (fields : Rauth)
  | statfs (fields : Rstatfs) | lopen (fields : Rlopen) | lcreate (fields : Rlcreate)
  | symlink (fields : Rsymlink) | mknod (fields : Rmknod) | rename
  | readlink (fields : Rreadlink) | getAttr (fields : Rgetattr) | setAttr
  | xattrWalk (fields : Rxattrwalk) | xattrCreate | readdir (fields : Rreaddir) | fsync
  | lock (fields : Rlock) | getLock (fields : Rgetlock) | link | mkdir (fields : Rmkdir)
  | renameAt | unlinkAt | lerror (fields : Rlerror)

/-! ## What is on the wire of a message -/

/-- The bytes of the fields, whether there is an encoding, and whether it is decoded to them. -/
structure Body where
  bytes : List UInt8
  Fits : Prop
  Kept : Prop

def Body.of {α : Type} [WireFormat α] [LawfulWireFormat α] (fields : α) : Body :=
  let spec := LawfulWireFormat.spec (α := α)
  ⟨spec.bytes fields, spec.Fits fields, spec.Kept fields⟩

def Body.empty : Body := ⟨[], True, True⟩

/-- Decode the fields of a kind of messages. -/
def arm {α μ : Type} [WireFormat α] (make : α → μ) : Exec Error (List UInt8) μ := do
  let fields ← WireFormat.decode
  pure (make fields)

def Tmessage.byteSize : Tmessage → UInt32
  | .version fields => WireFormat.byteSize fields
  | .flush fields => WireFormat.byteSize fields
  | .walk fields => WireFormat.byteSize fields
  | .read fields => WireFormat.byteSize fields
  | .write fields => WireFormat.byteSize fields
  | .clunk fields => WireFormat.byteSize fields
  | .remove fields => WireFormat.byteSize fields
  | .attach fields => WireFormat.byteSize fields
  | .auth fields => WireFormat.byteSize fields
  | .statfs fields => WireFormat.byteSize fields
  | .lopen fields => WireFormat.byteSize fields
  | .lcreate fields => WireFormat.byteSize fields
  | .symlink fields => WireFormat.byteSize fields
  | .mknod fields => WireFormat.byteSize fields
  | .rename fields => WireFormat.byteSize fields
  | .readlink fields => WireFormat.byteSize fields
  | .getAttr fields => WireFormat.byteSize fields
  | .setAttr fields => WireFormat.byteSize fields
  | .xattrWalk fields => WireFormat.byteSize fields
  | .xattrCreate fields => WireFormat.byteSize fields
  | .readdir fields => WireFormat.byteSize fields
  | .fsync fields => WireFormat.byteSize fields
  | .lock fields => WireFormat.byteSize fields
  | .getLock fields => WireFormat.byteSize fields
  | .link fields => WireFormat.byteSize fields
  | .mkdir fields => WireFormat.byteSize fields
  | .renameAt fields => WireFormat.byteSize fields
  | .unlinkAt fields => WireFormat.byteSize fields

def Tmessage.ty : Tmessage → UInt8
  | .version _ => tVersion
  | .flush _ => tFlush
  | .walk _ => tWalk
  | .read _ => tRead
  | .write _ => tWrite
  | .clunk _ => tClunk
  | .remove _ => tRemove
  | .attach _ => tAttach
  | .auth _ => tAuth
  | .statfs _ => tStatfs
  | .lopen _ => tLopen
  | .lcreate _ => tLcreate
  | .symlink _ => tSymlink
  | .mknod _ => tMknod
  | .rename _ => tRename
  | .readlink _ => tReadlink
  | .getAttr _ => tGetAttr
  | .setAttr _ => tSetAttr
  | .xattrWalk _ => tXattrWalk
  | .xattrCreate _ => tXattrCreate
  | .readdir _ => tReaddir
  | .fsync _ => tFsync
  | .lock _ => tLock
  | .getLock _ => tGetLock
  | .link _ => tLink
  | .mkdir _ => tMkdir
  | .renameAt _ => tRenameAt
  | .unlinkAt _ => tUnlinkAt

def Tmessage.encode : Tmessage → Exec Error (List UInt8) Unit
  | .version fields => WireFormat.encode fields
  | .flush fields => WireFormat.encode fields
  | .walk fields => WireFormat.encode fields
  | .read fields => WireFormat.encode fields
  | .write fields => WireFormat.encode fields
  | .clunk fields => WireFormat.encode fields
  | .remove fields => WireFormat.encode fields
  | .attach fields => WireFormat.encode fields
  | .auth fields => WireFormat.encode fields
  | .statfs fields => WireFormat.encode fields
  | .lopen fields => WireFormat.encode fields
  | .lcreate fields => WireFormat.encode fields
  | .symlink fields => WireFormat.encode fields
  | .mknod fields => WireFormat.encode fields
  | .rename fields => WireFormat.encode fields
  | .readlink fields => WireFormat.encode fields
  | .getAttr fields => WireFormat.encode fields
  | .setAttr fields => WireFormat.encode fields
  | .xattrWalk fields => WireFormat.encode fields
  | .xattrCreate fields => WireFormat.encode fields
  | .readdir fields => WireFormat.encode fields
  | .fsync fields => WireFormat.encode fields
  | .lock fields => WireFormat.encode fields
  | .getLock fields => WireFormat.encode fields
  | .link fields => WireFormat.encode fields
  | .mkdir fields => WireFormat.encode fields
  | .renameAt fields => WireFormat.encode fields
  | .unlinkAt fields => WireFormat.encode fields

/-- The arms of the `match` in `decode`. -/
def Tmessage.arms : List (UInt8 × Exec Error (List UInt8) Tmessage) := [
  (tVersion, arm .version), (tFlush, arm .flush), (tWalk, arm .walk), (tRead, arm .read),
  (tWrite, arm .write), (tClunk, arm .clunk), (tRemove, arm .remove), (tAttach, arm .attach),
  (tAuth, arm .auth), (tStatfs, arm .statfs), (tLopen, arm .lopen), (tLcreate, arm .lcreate),
  (tSymlink, arm .symlink), (tMknod, arm .mknod), (tRename, arm .rename),
  (tReadlink, arm .readlink), (tGetAttr, arm .getAttr), (tSetAttr, arm .setAttr),
  (tXattrWalk, arm .xattrWalk), (tXattrCreate, arm .xattrCreate), (tReaddir, arm .readdir),
  (tFsync, arm .fsync), (tLock, arm .lock), (tGetLock, arm .getLock), (tLink, arm .link),
  (tMkdir, arm .mkdir), (tRenameAt, arm .renameAt), (tUnlinkAt, arm .unlinkAt)]

/-- What there is of the fields of a message. -/
def Tmessage.body : Tmessage → Body
  | .version fields => .of fields
  | .flush fields => .of fields
  | .walk fields => .of fields
  | .read fields => .of fields
  | .write fields => .of fields
  | .clunk fields => .of fields
  | .remove fields => .of fields
  | .attach fields => .of fields
  | .auth fields => .of fields
  | .statfs fields => .of fields
  | .lopen fields => .of fields
  | .lcreate fields => .of fields
  | .symlink fields => .of fields
  | .mknod fields => .of fields
  | .rename fields => .of fields
  | .readlink fields => .of fields
  | .getAttr fields => .of fields
  | .setAttr fields => .of fields
  | .xattrWalk fields => .of fields
  | .xattrCreate fields => .of fields
  | .readdir fields => .of fields
  | .fsync fields => .of fields
  | .lock fields => .of fields
  | .getLock fields => .of fields
  | .link fields => .of fields
  | .mkdir fields => .of fields
  | .renameAt fields => .of fields
  | .unlinkAt fields => .of fields

def Rmessage.byteSize : Rmessage → UInt32
  | .version fields => WireFormat.byteSize fields
  | .flush => 0
  | .walk fields => WireFormat.byteSize fields
  | .read fields => WireFormat.byteSize fields
  | .write fields => WireFormat.byteSize fields
  | .clunk => 0
  | .remove => 0
  | .attach fields => WireFormat.byteSize fields
  | .auth fields => WireFormat.byteSize fields
  | .statfs fields => WireFormat.byteSize fields
  | .lopen fields => WireFormat.byteSize fields
  | .lcreate fields => WireFormat.byteSize fields
  | .symlink fields => WireFormat.byteSize fields
  | .mknod fields => WireFormat.byteSize fields
  | .rename => 0
  | .readlink fields => WireFormat.byteSize fields
  | .getAttr fields => WireFormat.byteSize fields
  | .setAttr => 0
  | .xattrWalk fields => WireFormat.byteSize fields
  | .xattrCreate => 0
  | .readdir fields => WireFormat.byteSize fields
  | .fsync => 0
  | .lock fields => WireFormat.byteSize fields
  | .getLock fields => WireFormat.byteSize fields
  | .link => 0
  | .mkdir fields => WireFormat.byteSize fields
  | .renameAt => 0
  | .unlinkAt => 0
  | .lerror fields => WireFormat.byteSize fields

def Rmessage.ty : Rmessage → UInt8
  | .version _ => rVersion
  | .flush => rFlush
  | .walk _ => rWalk
  | .read _ => rRead
  | .write _ => rWrite
  | .clunk => rClunk
  | .remove => rRemove
  | .attach _ => rAttach
  | .auth _ => rAuth
  | .statfs _ => rStatfs
  | .lopen _ => rLopen
  | .lcreate _ => rLcreate
  | .symlink _ => rSymlink
  | .mknod _ => rMknod
  | .rename => rRename
  | .readlink _ => rReadlink
  | .getAttr _ => rGetAttr
  | .setAttr => rSetAttr
  | .xattrWalk _ => rXattrWalk
  | .xattrCreate => rXattrCreate
  | .readdir _ => rReaddir
  | .fsync => rFsync
  | .lock _ => rLock
  | .getLock _ => rGetLock
  | .link => rLink
  | .mkdir _ => rMkdir
  | .renameAt => rRenameAt
  | .unlinkAt => rUnlinkAt
  | .lerror _ => rLerror

def Rmessage.encode : Rmessage → Exec Error (List UInt8) Unit
  | .version fields => WireFormat.encode fields
  | .flush => pure ()
  | .walk fields => WireFormat.encode fields
  | .read fields => WireFormat.encode fields
  | .write fields => WireFormat.encode fields
  | .clunk => pure ()
  | .remove => pure ()
  | .attach fields => WireFormat.encode fields
  | .auth fields => WireFormat.encode fields
  | .statfs fields => WireFormat.encode fields
  | .lopen fields => WireFormat.encode fields
  | .lcreate fields => WireFormat.encode fields
  | .symlink fields => WireFormat.encode fields
  | .mknod fields => WireFormat.encode fields
  | .rename => pure ()
  | .readlink fields => WireFormat.encode fields
  | .getAttr fields => WireFormat.encode fields
  | .setAttr => pure ()
  | .xattrWalk fields => WireFormat.encode fields
  | .xattrCreate => pure ()
  | .readdir fields => WireFormat.encode fields
  | .fsync => pure ()
  | .lock fields => WireFormat.encode fields
  | .getLock fields => WireFormat.encode fields
  | .link => pure ()
  | .mkdir fields => WireFormat.encode fields
  | .renameAt => pure ()
  | .unlinkAt => pure ()
  | .lerror fields => WireFormat.encode fields

/-- The arms of the `match` in `decode`. -/
def Rmessage.arms : List (UInt8 × Exec Error (List UInt8) Rmessage) := [
  (rVersion, arm .version), (rFlush, pure .flush), (rWalk, arm .walk), (rRead, arm .read),
  (rWrite, arm .write), (rClunk, pure .clunk), (rRemove, pure .remove), (rAttach, arm .attach),
  (rAuth, arm .auth), (rStatfs, arm .statfs), (rLopen, arm .lopen), (rLcreate, arm .lcreate),
  (rSymlink, arm .symlink), (rMknod, arm .mknod), (rRename, pure .rename),
  (rReadlink, arm .readlink), (rGetAttr, arm .getAttr), (rSetAttr, pure .setAttr),
  (rXattrWalk, arm .xattrWalk), (rXattrCreate, pure .xattrCreate), (rReaddir, arm .readdir),
  (rFsync, pure .fsync), (rLock, arm .lock), (rGetLock, arm .getLock), (rLink, pure .link),
  (rMkdir, arm .mkdir), (rRenameAt, pure .renameAt), (rUnlinkAt, pure .unlinkAt),
  (rLerror, arm .lerror)]

/-- What there is of the fields of a message. -/
def Rmessage.body : Rmessage → Body
  | .version fields => .of fields
  | .flush => .empty
  | .walk fields => .of fields
  | .read fields => .of fields
  | .write fields => .of fields
  | .clunk => .empty
  | .remove => .empty
  | .attach fields => .of fields
  | .auth fields => .of fields
  | .statfs fields => .of fields
  | .lopen fields => .of fields
  | .lcreate fields => .of fields
  | .symlink fields => .of fields
  | .mknod fields => .of fields
  | .rename => .empty
  | .readlink fields => .of fields
  | .getAttr fields => .of fields
  | .setAttr => .empty
  | .xattrWalk fields => .of fields
  | .xattrCreate => .empty
  | .readdir fields => .of fields
  | .fsync => .empty
  | .lock fields => .of fields
  | .getLock fields => .of fields
  | .link => .empty
  | .mkdir fields => .of fields
  | .renameAt => .empty
  | .unlinkAt => .empty
  | .lerror fields => .of fields

end IceCap.NineP
