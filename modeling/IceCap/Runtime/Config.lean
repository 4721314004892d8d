import IceCap.Library.Words
import IceCap.Runtime.Tls

/-!
# The configuration of the runtime

Each component gets its configuration as bytes in memory.  `Config::serialize` writes
them, and the C runtime reads them through `struct icecap_runtime_config`, whose
layout is declared a second time there.
-/

set_option autoImplicit false

namespace IceCap.Runtime

open Library

structure HeapInfo where
  start : UInt64
  stop : UInt64
  lock : UInt64

structure Arg where
  offset : UInt64
  size : UInt64

structure CommonConfig where
  heapInfo : HeapInfo
  tlsImage : TlsImage
  arg : Arg
  imagePathOffset : UInt64
  printLock : UInt64
  idleNotification : UInt64

structure ThreadConfig where
  ipcBuffer : UInt64
  endpoint : UInt64
  tcb : UInt64

structure Config where
  common : CommonConfig
  threads : List ThreadConfig
  imagePath : String
  arg : List UInt8

/-! ## The writer -/

def HeapInfo.words (info : HeapInfo) : List UInt64 := [info.start, info.stop, info.lock]

def TlsImage.words (image : TlsImage) : List UInt64 :=
  [image.vaddr, image.filesz, image.memsz, image.align]

def Arg.words (arg : Arg) : List UInt64 := [arg.offset, arg.size]

def CommonConfig.words (common : CommonConfig) : List UInt64 :=
  common.heapInfo.words ++ common.tlsImage.words ++ common.arg.words ++
    [common.imagePathOffset, common.printLock, common.idleNotification]

def ThreadConfig.words (thread : ThreadConfig) : List UInt64 :=
  [thread.ipcBuffer, thread.endpoint, thread.tcb]

/-- `as_bytes` of a struct of words, on a little-endian machine. -/
def asBytes (words : List UInt64) : List UInt8 := words.flatMap bytesOf

def sizeOfCommonConfig : Nat := 12 * 8

def sizeOfThreadConfig : Nat := 3 * 8

namespace Config

variable (config : Config)

def structSize : Nat := sizeOfCommonConfig + 8 + config.threads.length * sizeOfThreadConfig

def pathBytes : List UInt8 := config.imagePath.toByteArray.data.toList

/-- `none` is a failed assertion. -/
def serialize : Option (List (List UInt8)) :=
  if config.common.arg.offset ≠ 0 ∨ config.common.arg.size ≠ 0 ∨ config.common.imagePathOffset ≠ 0 then
    none
  else
    let blob : List UInt8 := []
    let arg : Arg := ⟨.ofNat (config.structSize + blob.length), .ofNat config.arg.length⟩
    let blob := blob ++ config.arg
    let imagePathOffset : UInt64 := .ofNat (config.structSize + blob.length)
    let blob := blob ++ config.pathBytes
    let blob := blob ++ [0]
    let struct := asBytes { config.common with arg, imagePathOffset }.words
    let struct := struct ++ bytesOf (.ofNat config.threads.length)
    let struct := struct ++ config.threads.flatMap fun thread => asBytes thread.words
    if struct.length = config.structSize then some [struct, blob] else none

end Config

/-! ## The reader -/

/-- `struct icecap_runtime_config`, with the flexible array at its end. -/
structure RuntimeConfig where
  heapInfo : HeapInfo
  tlsImage : TlsImage
  arg : Arg
  imagePathOffset : UInt64
  printLock : UInt64
  idleNotification : UInt64
  numThreads : UInt64
  threads : Nat → ThreadConfig

namespace Layout

def heapInfo : Nat := 0
def tlsImage : Nat := heapInfo + 3 * 8
def arg : Nat := tlsImage + 4 * 8
def imagePathOffset : Nat := arg + 2 * 8
def printLock : Nat := imagePathOffset + 8
def idleNotification : Nat := printLock + 8
def numThreads : Nat := idleNotification + 8
def threads (i : Nat) : Nat := numThreads + 8 + i * (3 * 8)

end Layout

section Reader
variable (blob : List UInt8) (offset : Nat)

def readHeapInfo : HeapInfo := ⟨wordAt blob offset, wordAt blob (offset + 8), wordAt blob (offset + 16)⟩

def readTlsImage : TlsImage :=
  ⟨wordAt blob offset, wordAt blob (offset + 8), wordAt blob (offset + 16), wordAt blob (offset + 24)⟩

def readArg : Arg := ⟨wordAt blob offset, wordAt blob (offset + 8)⟩

def readThreadConfig : ThreadConfig :=
  ⟨wordAt blob offset, wordAt blob (offset + 8), wordAt blob (offset + 16)⟩

def readConfig : RuntimeConfig where
  heapInfo := readHeapInfo blob Layout.heapInfo
  tlsImage := readTlsImage blob Layout.tlsImage
  arg := readArg blob Layout.arg
  imagePathOffset := wordAt blob Layout.imagePathOffset
  printLock := wordAt blob Layout.printLock
  idleNotification := wordAt blob Layout.idleNotification
  numThreads := wordAt blob Layout.numThreads
  threads i := readThreadConfig blob (Layout.threads i)

/-- The bytes of a string up to the NUL. -/
def cString : List UInt8 := (blob.drop offset).takeWhile (· != 0)

end Reader

/-- What the runtime finds in the bytes is the configuration. -/
structure ReadAs (config : Config) (blob : List UInt8) : Prop where
  heapInfo : (readConfig blob).heapInfo = config.common.heapInfo
  tlsImage : (readConfig blob).tlsImage = config.common.tlsImage
  printLock : (readConfig blob).printLock = config.common.printLock
  idleNotification : (readConfig blob).idleNotification = config.common.idleNotification
  numThreads : (readConfig blob).numThreads.toNat = config.threads.length
  threads : ∀ i thread, config.threads[i]? = some thread → (readConfig blob).threads i = thread
  argSize : (readConfig blob).arg.size.toNat = config.arg.length
  arg : (blob.drop (readConfig blob).arg.offset.toNat).take (readConfig blob).arg.size.toNat = config.arg
  imagePath : cString blob (readConfig blob).imagePathOffset.toNat = config.pathBytes
  terminated : blob[(readConfig blob).imagePathOffset.toNat + config.pathBytes.length]? = some 0
  -- an offset of 0 stands for no path
  named : (readConfig blob).imagePathOffset ≠ 0
  -- the three areas, one behind the other
  threadsEnd : Layout.threads config.threads.length ≤ (readConfig blob).arg.offset.toNat
  argEnd : (readConfig blob).arg.offset.toNat + config.arg.length ≤
    (readConfig blob).imagePathOffset.toNat
  pathEnd : (readConfig blob).imagePathOffset.toNat + config.pathBytes.length + 1 ≤ blob.length

/-- The fields that `serialize` fills in are zero, the path has no NUL, and the pieces are not
larger than a `Vec` can be. -/
structure Config.Suits (config : Config) : Prop where
  isZero : config.common.arg = ⟨0, 0⟩ ∧ config.common.imagePathOffset = 0
  nulFree : 0 ∉ config.pathBytes
  isVec : config.structSize < 2 ^ 63 ∧ config.arg.length + config.pathBytes.length + 1 < 2 ^ 63

namespace Config

variable {config : Config}

/-- The words of the first piece. -/
def structWords (config : Config) (common : CommonConfig) : List UInt64 :=
  common.words ++ [.ofNat config.threads.length] ++ config.threads.flatMap ThreadConfig.words

theorem length_flatMap_words (threads : List ThreadConfig) :
    (threads.flatMap ThreadConfig.words).length = 3 * threads.length := by
  induction threads with
  | nil => rfl
  | cons thread threads ih =>
      rw [List.flatMap_cons, List.length_append, ih, List.length_cons]
      show 3 + _ = _
      omega

theorem length_structWords (common : CommonConfig) :
    8 * (config.structWords common).length = config.structSize := by
  have words : common.words.length = 12 := rfl
  rw [structWords, List.length_append, List.length_append, length_flatMap_words, words, structSize,
    sizeOfCommonConfig, sizeOfThreadConfig, List.length_singleton]
  omega

/-- The common part as it is written. -/
def written (config : Config) : CommonConfig :=
  { config.common with
    arg := ⟨.ofNat config.structSize, .ofNat config.arg.length⟩
    imagePathOffset := .ofNat (config.structSize + config.arg.length) }

def pieces (config : Config) : List (List UInt8) :=
  [asBytes (config.structWords config.written), config.arg ++ config.pathBytes ++ [0]]

/-- The first piece, as it is put together. -/
theorem asBytes_structWords (common : CommonConfig) :
    asBytes common.words ++ bytesOf (.ofNat config.threads.length) ++
      (config.threads.flatMap fun thread => asBytes thread.words) =
      asBytes (config.structWords common) := by
  simp only [asBytes, structWords, List.flatMap_append, List.flatMap_singleton, List.flatMap_assoc]

theorem serialize_eq (suits : config.Suits) : config.serialize = some config.pieces := by
  obtain ⟨isArg, isPath⟩ := suits.isZero
  have isLength : (asBytes (config.structWords config.written)).length = config.structSize := by
    rw [asBytes, length_flatMap_bytesOf, length_structWords]
  have isZero : ¬ (config.common.arg.offset ≠ 0 ∨ config.common.arg.size ≠ 0 ∨
      config.common.imagePathOffset ≠ 0) := by
    rw [isArg, isPath]
    simp
  have isStruct := @asBytes_structWords config config.written
  unfold serialize
  rw [if_neg isZero]
  unfold written at isStruct isLength
  simp only [List.nil_append, List.length_nil, Nat.add_zero, isStruct, isLength, if_true]
  rfl

end Config

open Config

/-! ## The two layouts agree -/

/-- The words are in the blob from an offset on. -/
def WordsAt (blob : List UInt8) (offset : Nat) (words : List UInt64) : Prop :=
  ∀ k word, words[k]? = some word → wordAt blob (offset + 8 * k) = word

section Readers
variable {blob : List UInt8} {offset : Nat}

theorem readHeapInfo_eq {info : HeapInfo} (words : WordsAt blob offset info.words) :
    readHeapInfo blob offset = info := by
  cases info
  rw [readHeapInfo, HeapInfo.mk.injEq]
  exact ⟨words 0 _ rfl, words 1 _ rfl, words 2 _ rfl⟩

theorem readTlsImage_eq {image : TlsImage} (words : WordsAt blob offset image.words) :
    readTlsImage blob offset = image := by
  cases image
  rw [readTlsImage, TlsImage.mk.injEq]
  exact ⟨words 0 _ rfl, words 1 _ rfl, words 2 _ rfl, words 3 _ rfl⟩

theorem readArg_eq {arg : Arg} (words : WordsAt blob offset arg.words) : readArg blob offset = arg := by
  cases arg
  rw [readArg, Arg.mk.injEq]
  exact ⟨words 0 _ rfl, words 1 _ rfl⟩

theorem readThreadConfig_eq {thread : ThreadConfig} (words : WordsAt blob offset thread.words) :
    readThreadConfig blob offset = thread := by
  cases thread
  rw [readThreadConfig, ThreadConfig.mk.injEq]
  exact ⟨words 0 _ rfl, words 1 _ rfl, words 2 _ rfl⟩

end Readers

variable {config : Config}

theorem wordsAt_pieces {before words after : List UInt64}
    (split : config.structWords config.written = before ++ words ++ after) :
    WordsAt config.pieces.flatten (8 * before.length) words := by
  intro k word isWord
  have isIndex : 8 * before.length + 8 * k = 8 * (before.length + k) := by omega
  rw [isIndex, pieces, List.flatten_cons]
  apply wordAt_flatMap
  rw [split, List.append_assoc, List.getElem?_append_right (Nat.le_add_right _ _),
    Nat.add_sub_cancel_left, List.getElem?_append_left (List.getElem?_eq_some_iff.mp isWord).1]
  exact isWord

theorem readConfig_threads {i : Nat} {thread : ThreadConfig}
    (isThread : config.threads[i]? = some thread) :
    (readConfig config.pieces.flatten).threads i = thread := by
  obtain ⟨less, rfl⟩ := List.getElem?_eq_some_iff.mp isThread
  have split : config.structWords config.written =
      config.written.words ++ [UInt64.ofNat config.threads.length] ++
        (config.threads.take i).flatMap ThreadConfig.words ++ config.threads[i].words ++
        (config.threads.drop (i + 1)).flatMap ThreadConfig.words := by
    rw [List.append_assoc, List.append_assoc _ _ (_ ++ _), ← List.flatMap_cons, ← List.flatMap_append,
      List.getElem_cons_drop, List.take_append_drop, structWords]
  have isOffset : 8 * (config.written.words ++ [UInt64.ofNat config.threads.length] ++
      (config.threads.take i).flatMap ThreadConfig.words).length = Layout.threads i := by
    have words : config.written.words.length = 12 := rfl
    rw [List.length_append, List.length_append, length_flatMap_words, List.length_take, words]
    unfold Layout.threads Layout.numThreads Layout.idleNotification Layout.printLock
      Layout.imagePathOffset Layout.arg Layout.tlsImage Layout.heapInfo
    simp only [List.length_singleton]
    omega
  apply readThreadConfig_eq
  rw [← isOffset]
  exact wordsAt_pieces split

/-- The common part is read as it was written. -/
theorem readConfig_written (config : Config) : readConfig config.pieces.flatten =
    ⟨config.common.heapInfo, config.common.tlsImage, config.written.arg, config.written.imagePathOffset,
      config.common.printLock, config.common.idleNotification, .ofNat config.threads.length,
      (readConfig config.pieces.flatten).threads⟩ := by
  have heapInfo := @wordsAt_pieces config [] config.common.heapInfo.words _ rfl
  have tlsImage := @wordsAt_pieces config config.common.heapInfo.words config.common.tlsImage.words _ rfl
  have arg := @wordsAt_pieces config (config.common.heapInfo.words ++ config.common.tlsImage.words)
    config.written.arg.words _ rfl
  have rest := @wordsAt_pieces config
    (config.common.heapInfo.words ++ config.common.tlsImage.words ++ config.written.arg.words)
    [config.written.imagePathOffset, config.common.printLock, config.common.idleNotification,
      .ofNat config.threads.length] _ rfl
  rw [readConfig, RuntimeConfig.mk.injEq]
  exact ⟨readHeapInfo_eq heapInfo, readTlsImage_eq tlsImage, readArg_eq arg, rest 0 _ rfl,
    rest 1 _ rfl, rest 2 _ rfl, rest 3 _ rfl, rfl⟩

/-- The second piece begins where the struct ends. -/
theorem drop_pieces (config : Config) :
    config.pieces.flatten.drop config.structSize = config.arg ++ config.pathBytes ++ [0] := by
  have isLength : (asBytes (config.structWords config.written)).length = config.structSize := by
    rw [asBytes, length_flatMap_bytesOf, length_structWords]
  rw [pieces, List.flatten_cons, List.drop_left' isLength]
  simp

theorem takeWhile_nulFree {bytes : List UInt8} (nulFree : 0 ∉ bytes) :
    (bytes ++ [0]).takeWhile (· != 0) = bytes := by
  have isPath : ∀ byte ∈ bytes, (byte != 0) = true := by
    intro byte member
    rw [bne_iff_ne]
    exact fun isZero => nulFree (isZero ▸ member)
  rw [List.takeWhile_append_of_pos isPath]
  simp

theorem structSize_eq (config : Config) : Layout.threads config.threads.length = config.structSize := by
  unfold Layout.threads Layout.numThreads Layout.idleNotification Layout.printLock
    Layout.imagePathOffset Layout.arg Layout.tlsImage Layout.heapInfo structSize sizeOfCommonConfig
    sizeOfThreadConfig
  omega

/-- The configuration is read as it was serialized. -/
theorem serialize_readAs (config : Config) (suits : config.Suits) :
    ∃ pieces, config.serialize = some pieces ∧ ReadAs config pieces.flatten := by
  refine ⟨config.pieces, serialize_eq suits, ?_⟩
  obtain ⟨structFits, blobFits⟩ := suits.isVec
  have isStruct := structSize_eq config
  have isRead := readConfig_written config
  have areThreads : config.threads.length ≤ config.structSize := by
    unfold structSize sizeOfThreadConfig
    omega
  have isOffset : (readConfig config.pieces.flatten).arg.offset.toNat = config.structSize := by
    rw [isRead]
    exact Nat.mod_eq_of_lt (by omega)
  have isSize : (readConfig config.pieces.flatten).arg.size.toNat = config.arg.length := by
    rw [isRead]
    exact Nat.mod_eq_of_lt (by omega)
  have isPath : (readConfig config.pieces.flatten).imagePathOffset.toNat =
      config.structSize + config.arg.length := by
    rw [isRead]
    exact Nat.mod_eq_of_lt (by omega)
  have isRest := drop_pieces config
  have isPathRest : config.pieces.flatten.drop (config.structSize + config.arg.length) =
      config.pathBytes ++ [0] := by
    rw [← List.drop_drop, isRest, List.append_assoc, List.drop_left]
  have isLength : config.pieces.flatten.length =
      config.structSize + config.arg.length + config.pathBytes.length + 1 := by
    rw [pieces, List.flatten_cons, List.length_append, asBytes, length_flatMap_bytesOf,
      length_structWords]
    simp [Nat.add_assoc]
  constructor
  · rw [isRead]
  · rw [isRead]
  · rw [isRead]
  · rw [isRead]
  · rw [isRead]
    exact Nat.mod_eq_of_lt (by omega)
  · exact fun i thread => readConfig_threads
  · exact isSize
  · rw [isOffset, isSize, isRest, List.append_assoc, List.take_left]
  · rw [cString, isPath, isPathRest]
    exact takeWhile_nulFree suits.nulFree
  · rw [isPath, ← List.getElem?_drop, isPathRest, List.getElem?_append_right (Nat.le_refl _),
      Nat.sub_self]
    rfl
  · intro isZero
    rw [isZero] at isPath
    unfold structSize at isPath
    simp only [UInt64.toNat_zero] at isPath
    omega
  · rw [isOffset]
    exact le_of_eq isStruct
  · rw [isOffset, isPath]
  · rw [isPath, isLength]

/-- A component with two threads and an argument of three bytes. -/
def exampleConfig : Config where
  common := ⟨⟨0x40000000, 0x40100000, 4⟩, ⟨0x400000, 8, 24, 16⟩, ⟨0, 0⟩, 0, 5, 6⟩
  threads := [⟨0x50000000, 0, 7⟩, ⟨0x50001000, 8, 9⟩]
  imagePath := "/a"
  arg := [1, 0, 2]

theorem serialize_readAs_exampleConfig :
    ∃ pieces, exampleConfig.serialize = some pieces ∧ ReadAs exampleConfig pieces.flatten :=
  serialize_readAs exampleConfig ⟨⟨rfl, rfl⟩, by decide, by decide⟩

end IceCap.Runtime
