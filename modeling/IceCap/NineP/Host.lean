import IceCap.NineP.Path
import IceCap.NineP.Frames

/-!
# The host of the server

What the server asks of the file system, one constructor for each of the calls
it makes, and a host that answers.  The calls are recorded in the order in which
they are made.
-/

set_option autoImplicit false

namespace IceCap.NineP

open IceCap.Library

/-- What the server reads of `fs::Metadata`. -/
structure Metadata where
  isDir : Bool
  isFile : Bool
  stMode : UInt32
  stIno : UInt64
  stNlink : UInt64
  stUid : UInt32
  stGid : UInt32
  stRdev : UInt64
  stSize : UInt64
  stBlksize : UInt64
  stBlocks : UInt64
  stAtime : Int64
  stAtimeNsec : Int64
  stMtime : Int64
  stMtimeNsec : Int64
  stCtime : Int64
  stCtimeNsec : Int64
  deriving DecidableEq

/-- What the server reads of `libc::statfs64`. -/
structure Statfs where
  ftype : Int64
  fbsize : Int64
  fblocks : UInt64
  fbfree : UInt64
  fbavail : UInt64
  ffiles : UInt64
  fffree : UInt64
  fnamelen : Int64
  deriving DecidableEq

structure OpenOptions where
  read : Bool := false
  write : Bool := false
  append : Bool := false
  truncate : Bool := false
  create : Bool := false
  createNew : Bool := false
  customFlags : UInt32 := 0
  mode : UInt32 := 0o666
  deriving DecidableEq

structure Timespec where
  tvSec : Int64
  tvNsec : Int64
  deriving DecidableEq

/-- The calls, with what they return.  `H` are the open files. -/
inductive Operation (H : Type) : Type → Type where
  | metadata (path : Path) : Operation H Metadata
  | openFile (options : OpenOptions) (path : Path) : Operation H H
  | fileMetadata (file : H) : Operation H Metadata
  | readAt (file : H) (capacity : Nat) (offset : UInt64) : Operation H (List UInt8)
  | writeAt (file : H) (data : List UInt8) (offset : UInt64) : Operation H Nat
  | setLen (file : H) (size : UInt64) : Operation H Unit
  | futimens (file : H) (atime mtime : Timespec) : Operation H Unit
  | fchown (file : H) (uid gid : UInt32) : Operation H Unit
  | syncAll (file : H) : Operation H Unit
  | syncData (file : H) : Operation H Unit
  | removeDir (path : Path) : Operation H Unit
  | removeFile (path : Path) : Operation H Unit
  | rename (path newpath : Path) : Operation H Unit
  | hardLink (path newpath : Path) : Operation H Unit
  | createDir (mode : UInt32) (path : Path) : Operation H Unit
  | readDir (path : Path) : Operation H (List (Except Error (List UInt8)))
  | entryMetadata (path : Path) (name : List UInt8) : Operation H Metadata
  | statfs (path : Path) : Operation H Statfs

variable {F H α : Type}

/-- The paths that are given to the call. -/
def Operation.paths : {α : Type} → Operation H α → List Path
  | _, .metadata path | _, .openFile _ path | _, .removeDir path | _, .removeFile path
  | _, .createDir _ path | _, .readDir path | _, .entryMetadata path _ | _, .statfs path => [path]
  | _, .rename path newpath | _, .hardLink path newpath => [path, newpath]
  | _, .fileMetadata _ | _, .readAt .. | _, .writeAt .. | _, .setLen .. | _, .futimens ..
  | _, .fchown .. | _, .syncAll _ | _, .syncData _ => []

/-- The open file that the call is made on. -/
def Operation.file : {α : Type} → Operation H α → Option H
  | _, .fileMetadata file | _, .readAt file .. | _, .writeAt file .. | _, .setLen file _
  | _, .futimens file .. | _, .fchown file .. | _, .syncAll file | _, .syncData file => some file
  | _, .metadata _ | _, .openFile .. | _, .removeDir _ | _, .removeFile _ | _, .rename ..
  | _, .hardLink .. | _, .createDir .. | _, .readDir _ | _, .entryMetadata .. | _, .statfs _ => none

/-- The file that the call has opened. -/
def Operation.opens : {α : Type} → Operation H α → Except Error α → Option H
  | _, .openFile .., .ok file => some file
  | _, _, _ => none

/-- What is recorded of a call. -/
structure Call (H : Type) where
  paths : List Path
  file : Option H
  opens : Option H

def Operation.call (operation : Operation H α) (result : Except Error α) : Call H :=
  ⟨operation.paths, operation.file, operation.opens result⟩

/-- The constants that are not the same on all platforms. -/
structure Libc where
  oNoctty : UInt32
  oNonblock : UInt32
  oDsync : UInt32
  oDirect : UInt32
  oLargefile : UInt32
  oDirectory : UInt32
  oNofollow : UInt32
  oNoatime : UInt32
  oSync : UInt32
  oCloexec : UInt32
  atRemovedir : UInt32
  utimeNow : Int64
  utimeOmit : Int64

/-- No more is read of a file than there is room for. -/
structure Host (F H : Type) where
  libc : Libc
  run : {α : Type} → Operation H α → F → Except Error α × F
  readAt_le : ∀ {file : H} {capacity : Nat} {offset : UInt64} {before after : F}
    {data : List UInt8},
    run (.readAt file capacity offset) before = (.ok data, after) → data.length ≤ capacity

end IceCap.NineP
