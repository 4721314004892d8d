import Mathlib.Data.List.Nodup
import IceCap.Firmware.Addresses

/-!
# The RAM of a guest

`map_ram` maps the RAM of a VM block by block, and gives each block a fill from
the first of the images that overlaps it.  A fill says which bytes of a file the
loader copies where into the frame.
-/

set_option autoImplicit false

namespace IceCap.Firmware

/-- A file at an address. -/
structure Image where
  start : Nat
  size : Nat
  fname : String
  deriving DecidableEq

/-- `CDL_FrameFill_FileData`: `length` bytes of the file to an offset in the frame. -/
structure Fill where
  frameOffset : Nat
  length : Nat
  fname : String
  fileOffset : Nat
  deriving DecidableEq

structure MappedBlock where
  vaddr : Nat
  paddr : Option Nat
  device : Bool
  fill : List Fill
  deriving DecidableEq

def mkFill (frameOffset length : Nat) (fname : String) (fileOffset : Nat) : List Fill :=
  [⟨frameOffset, length, fname, fileOffset⟩]

namespace Image

def stop (image : Image) : Nat := image.start + image.size

def Overlaps (image : Image) (addr : Nat) : Prop :=
  image.start < addr + blockSize ∧ addr < image.stop

instance (image : Image) (addr : Nat) : Decidable (image.Overlaps addr) :=
  inferInstanceAs (Decidable (_ ∧ _))

/-- The subtractions of natural numbers stop at 0, as `max(0, ..)` does. -/
def fill (image : Image) (addr : Nat) : List Fill :=
  let frameOffset := image.start - addr
  mkFill frameOffset (min (blockSize - frameOffset) (image.stop - addr)) image.fname
    (addr - image.start)

end Image

/-- The loop over the images, which ends at the first one that overlaps. -/
def blockFill (images : List Image) (addr : Nat) : List Fill :=
  match images.find? fun image => image.Overlaps addr with
  | some image => image.fill addr
  | none => []

/-- `range(ram_start, ram_end, BLOCK_SIZE)` -/
def blockAddrs (ramStart ramSize : Nat) : List Nat :=
  (List.range (ramSize / blockSize)).map (ramStart + · * blockSize)

def mapBlock (mapPhys : Bool) (addr : Nat) (fill : List Fill) : MappedBlock :=
  if mapPhys then ⟨addr, some addr, true, fill⟩ else ⟨addr, none, false, fill⟩

/-- `none` is a failed assertion. -/
def mapRam (mapPhys : Bool) (ramStart ramSize : Nat) (images : List Image) :
    Option (List MappedBlock) :=
  if ramStart % blockSize = 0 ∧ ramSize % blockSize = 0 then
    some ((blockAddrs ramStart ramSize).map fun addr => mapBlock mapPhys addr (blockFill images addr))
  else none

/-- What the addresses of a VM and its registered files are for `map_ram`. -/
structure VmImages where
  kernelAddr : Nat
  kernelFname : String
  initrd : Option (Nat × String)
  dtbAddr : Nat
  dtbFname : String

/-- The list that `pre_finalize` makes, with the sizes of the files. -/
def VmImages.mappings (stSize : String → Nat) (vm : VmImages) : List Image :=
  [⟨vm.kernelAddr, stSize vm.kernelFname, vm.kernelFname⟩] ++
    (vm.initrd.map fun initrd => ⟨initrd.1, stSize initrd.2, initrd.2⟩).toList ++
    [⟨vm.dtbAddr, stSize vm.dtbFname, vm.dtbFname⟩]

/-! ## What the loader makes of the fills -/

/-- A byte of a file at an address. -/
structure Copy where
  address : Nat
  fname : String
  offset : Nat
  deriving DecidableEq

def Fill.copies (vaddr : Nat) (fill : Fill) : List Copy :=
  (List.range fill.length).map fun i =>
    ⟨vaddr + fill.frameOffset + i, fill.fname, fill.fileOffset + i⟩

def MappedBlock.copies (block : MappedBlock) : List Copy :=
  block.fill.flatMap (Fill.copies block.vaddr)

/-- The RAM holds exactly the images. -/
structure Filled (stSize : String → Nat) (images : List Image) (blocks : List MappedBlock) : Prop where
  once : ∀ image ∈ images, ∀ k < image.size,
    (blocks.flatMap MappedBlock.copies).count ⟨image.start + k, image.fname, k⟩ = 1
  inBlock : ∀ block ∈ blocks, ∀ fill ∈ block.fill, fill.frameOffset + fill.length ≤ blockSize
  inFile : ∀ block ∈ blocks, ∀ copy ∈ block.copies, copy.offset < stSize copy.fname

/-- The first image that overlaps the block reaches from before the block into it, or to its end,
and those behind it in the list that overlap the block are empty. -/
def Placed (addr : Nat) : List Image → Prop
  | [] => True
  | image :: images =>
      if image.Overlaps addr then
        (image.start ≤ addr ∨ addr + blockSize ≤ image.stop) ∧
          ∀ later ∈ images, later.Overlaps addr → later.size = 0
      else Placed addr images

/-- What the code relies on: the images lie in the RAM, no address is in two of them, and their
sizes are those of the files. -/
structure Suits (stSize : String → Nat) (ramStart ramSize : Nat) (images : List Image) : Prop where
  inside : ∀ image ∈ images, ramStart ≤ image.start ∧ image.stop ≤ ramStart + ramSize
  disjoint : images.Pairwise fun image other =>
    ∀ address, image.start ≤ address → address < image.stop →
      other.start ≤ address → ¬ address < other.stop
  sized : ∀ image ∈ images, image.size = stSize image.fname

variable {stSize : String → Nat} {ramStart ramSize addr : Nat} {images : List Image}

/-! ## One block -/

theorem placed_iff {before after : List Image} {first : Image}
    (others : ∀ image ∈ before, ¬ image.Overlaps addr) (overlaps : first.Overlaps addr) :
    Placed addr (before ++ first :: after) ↔
      (first.start ≤ addr ∨ addr + blockSize ≤ first.stop) ∧
        ∀ later ∈ after, later.Overlaps addr → later.size = 0 := by
  induction before with
  | nil => rw [List.nil_append, Placed, if_pos overlaps]
  | cons image before ih =>
      rw [List.cons_append, Placed, if_neg (others image List.mem_cons_self)]
      exact ih fun other member => others other (List.mem_cons_of_mem _ member)

theorem placed_of_apart (others : ∀ image ∈ images, ¬ image.Overlaps addr) : Placed addr images := by
  induction images with
  | nil => trivial
  | cons image images ih =>
      rw [Placed, if_neg (others image List.mem_cons_self)]
      exact ih fun other member => others other (List.mem_cons_of_mem _ member)

namespace Image

variable (image : Image)

/-- A byte of the image, where it belongs. -/
def copy (offset : Nat) : Copy := ⟨image.start + offset, image.fname, offset⟩

def copied (addr : Nat) : Nat := min (blockSize - (image.start - addr)) (image.stop - addr)

/-- The bytes go where they belong, and only their number can be wrong. -/
theorem copies_fill : (image.fill addr).flatMap (Fill.copies addr) =
    (List.range' (addr - image.start) (image.copied addr)).map image.copy := by
  have isPlace : ∀ i, addr + (image.start - addr) + i = image.start + (addr - image.start + i) := by
    intro i
    omega
  rw [List.range'_eq_map_range, List.map_map, fill, mkFill, List.flatMap_singleton]
  apply List.map_congr_left
  intro i _
  simp only [Function.comp_apply, copy, isPlace]

end Image

/-- What is copied into a block. -/
def copiesAt (images : List Image) (addr : Nat) : List Copy :=
  (blockFill images addr).flatMap (Fill.copies addr)

theorem copies_mapBlock (mapPhys : Bool) :
    (mapBlock mapPhys addr (blockFill images addr)).copies = copiesAt images addr := by
  cases mapPhys <;> rfl

theorem copiesAt_none (others : ∀ image ∈ images, ¬ image.Overlaps addr) :
    copiesAt images addr = [] := by
  have isNone : images.find? (fun image => image.Overlaps addr) = none := by
    rw [List.find?_eq_none]
    intro image member
    simpa using others image member
  rw [copiesAt, blockFill, isNone]
  rfl

theorem copiesAt_first {before after : List Image} {first : Image}
    (others : ∀ image ∈ before, ¬ image.Overlaps addr) (overlaps : first.Overlaps addr) :
    copiesAt (before ++ first :: after) addr =
      (List.range' (addr - first.start) (first.copied addr)).map first.copy := by
  have isFirst : (before ++ first :: after).find? (fun image => image.Overlaps addr) = some first := by
    rw [List.find?_eq_some_iff_append]
    exact ⟨by simpa using overlaps, before, after, rfl, by simpa using others⟩
  rw [copiesAt, blockFill, isFirst]
  exact first.copies_fill

/-- The first image that overlaps, if there is one. -/
theorem first_overlaps (images : List Image) (addr : Nat) :
    (∀ image ∈ images, ¬ image.Overlaps addr) ∨
      ∃ before first after, images = before ++ first :: after ∧
        (∀ image ∈ before, ¬ image.Overlaps addr) ∧ first.Overlaps addr := by
  cases found : images.find? fun image => image.Overlaps addr with
  | none =>
      rw [List.find?_eq_none] at found
      exact .inl fun image member => by simpa using found image member
  | some first =>
      obtain ⟨overlaps, before, after, isSplit, others⟩ := List.find?_eq_some_iff_append.mp found
      exact .inr ⟨before, first, after, isSplit, by simpa using others, by simpa using overlaps⟩

/-- No fill leaves its block. -/
theorem within_of_mem_copiesAt {copy : Copy} (member : copy ∈ copiesAt images addr) :
    addr ≤ copy.address ∧ copy.address < addr + blockSize := by
  rcases first_overlaps images addr with others | ⟨before, first, after, rfl, others, overlaps⟩
  · rw [copiesAt_none others] at member
    exact absurd member List.not_mem_nil
  · rw [copiesAt_first others overlaps] at member
    obtain ⟨offset, inRange, rfl⟩ := List.mem_map.mp member
    rw [List.mem_range'_1] at inRange
    unfold Image.copied at inRange
    unfold Image.Overlaps at overlaps
    simp only [Image.copy]
    omega

theorem copiesAt_nodup (images : List Image) (addr : Nat) : (copiesAt images addr).Nodup := by
  rcases first_overlaps images addr with others | ⟨before, first, after, rfl, others, overlaps⟩
  · rw [copiesAt_none others]
    exact .nil
  · rw [copiesAt_first others overlaps]
    apply List.Nodup.map
    · intro offset other same
      exact congrArg Copy.offset same
    · exact List.nodup_range'

/-- The part of `Filled` that is about one block. -/
structure FilledAt (stSize : String → Nat) (images : List Image) (addr : Nat) : Prop where
  copied : ∀ image ∈ images, ∀ k < image.size, addr ≤ image.start + k →
    image.start + k < addr + blockSize → image.copy k ∈ copiesAt images addr
  inFile : ∀ copy ∈ copiesAt images addr, copy.offset < stSize copy.fname

theorem Image.overlaps_of_address {image : Image} {k : Nat} (isByte : k < image.size)
    (above : addr ≤ image.start + k) (below : image.start + k < addr + blockSize) :
    image.Overlaps addr := by
  unfold Image.Overlaps Image.stop
  omega

theorem filledAt_iff (suits : Suits stSize ramStart ramSize images) :
    FilledAt stSize images addr ↔ Placed addr images := by
  rcases first_overlaps images addr with others | ⟨before, first, after, rfl, others, overlaps⟩
  · apply iff_of_true _ (placed_of_apart others)
    constructor
    · intro image member k isByte above below
      exact absurd (image.overlaps_of_address isByte above below) (others image member)
    · rw [copiesAt_none others]
      intro copy member
      exact absurd member List.not_mem_nil
  have isMember : first ∈ before ++ first :: after := by simp
  have isSized := suits.sized first isMember
  rw [placed_iff others overlaps]
  have sameCopies := @copiesAt_first addr before after first others overlaps
  have apart := (List.pairwise_cons.mp (List.pairwise_append.mp suits.disjoint).2.1).1
  unfold Image.Overlaps at overlaps
  constructor
  · intro filled
    constructor
    · -- otherwise the byte behind the last one of the file is copied
      by_contra inside
      have isCopied : first.copy first.size ∈ copiesAt (before ++ first :: after) addr := by
        rw [sameCopies]
        apply List.mem_map_of_mem
        rw [List.mem_range'_1]
        unfold Image.copied Image.stop at *
        omega
      have less := filled.inFile _ isCopied
      simp only [Image.copy, ← isSized] at less
      omega
    · intro later member laterOverlaps
      by_contra nonempty
      have positive : 0 < blockSize := by decide
      unfold Image.Overlaps Image.stop at laterOverlaps
      have isCopied := filled.copied later (by simp [member]) (addr - later.start) (by omega) (by omega)
        (by omega)
      have inFile := filled.inFile _ isCopied
      rw [sameCopies] at isCopied
      obtain ⟨offset, _, same⟩ := List.mem_map.mp isCopied
      have sameAddress : first.start + offset = later.start + (addr - later.start) :=
        congrArg Copy.address same
      rw [← same] at inFile
      simp only [Image.copy, ← isSized] at inFile
      exact apart later member (first.start + offset) (Nat.le_add_right _ _)
        (Nat.add_lt_add_left inFile _) (by omega) (by unfold Image.stop; omega)
  · intro ⟨placed, empty⟩
    constructor
    · intro image member k isByte above below
      have imageOverlaps := image.overlaps_of_address isByte above below
      rcases List.mem_append.mp member with isBefore | member
      · exact absurd imageOverlaps (others image isBefore)
      rcases List.mem_cons.mp member with rfl | isAfter
      · rw [sameCopies]
        apply List.mem_map_of_mem
        rw [List.mem_range'_1]
        unfold Image.copied Image.stop at *
        omega
      · have isEmpty := empty image isAfter imageOverlaps
        omega
    · intro copy member
      rw [sameCopies] at member
      obtain ⟨offset, inRange, rfl⟩ := List.mem_map.mp member
      rw [List.mem_range'_1] at inRange
      simp only [Image.copy, ← isSized]
      unfold Image.copied Image.stop at *
      omega

/-! ## All blocks -/

theorem mem_blockAddrs : addr ∈ blockAddrs ramStart ramSize ↔
    ∃ i < ramSize / blockSize, addr = ramStart + i * blockSize := by
  simp [blockAddrs, eq_comm]

/-- The block that an address of the RAM is in. -/
theorem block_of_address {address : Nat} (isWhole : ramSize % blockSize = 0)
    (above : ramStart ≤ address) (below : address < ramStart + ramSize) :
    ∃ addr ∈ blockAddrs ramStart ramSize, addr ≤ address ∧ address < addr + blockSize := by
  refine ⟨ramStart + (address - ramStart) / blockSize * blockSize, ?_, ?_⟩
  · rw [mem_blockAddrs]
    refine ⟨_, ?_, rfl⟩
    rw [blockSize_eq] at *
    omega
  · rw [blockSize_eq] at *
    omega

/-- What is copied into the RAM. -/
def allCopies (ramStart ramSize : Nat) (images : List Image) : List Copy :=
  (blockAddrs ramStart ramSize).flatMap (copiesAt images)

theorem allCopies_nodup (images : List Image) : (allCopies ramStart ramSize images).Nodup := by
  apply List.nodup_flatMap.mpr
  refine ⟨fun addr _ => copiesAt_nodup images addr, ?_⟩
  apply List.pairwise_map.mpr
  apply List.pairwise_lt_range.imp
  intro earlier later less copy member other
  have first := within_of_mem_copiesAt member
  have second := within_of_mem_copiesAt other
  rw [blockSize_eq] at first second
  omega

theorem mem_allCopies_of_block {copy : Copy} (isBlock : addr ∈ blockAddrs ramStart ramSize)
    (above : addr ≤ copy.address) (below : copy.address < addr + blockSize) :
    copy ∈ allCopies ramStart ramSize images ↔ copy ∈ copiesAt images addr := by
  constructor
  · intro member
    obtain ⟨other, isOther, inOther⟩ := List.mem_flatMap.mp member
    have within := within_of_mem_copiesAt inOther
    obtain ⟨i, _, rfl⟩ := mem_blockAddrs.mp isBlock
    obtain ⟨j, _, rfl⟩ := mem_blockAddrs.mp isOther
    have same : i = j := by
      rw [blockSize_eq] at *
      omega
    rwa [same]
  · intro member
    exact List.mem_flatMap.mpr ⟨addr, isBlock, member⟩

theorem blockFill_within {fill : Fill} (member : fill ∈ blockFill images addr) :
    fill.frameOffset + fill.length ≤ blockSize := by
  unfold blockFill at member
  split at member
  · next image found =>
      have overlaps : image.Overlaps addr := by simpa using List.find?_some found
      unfold Image.Overlaps at overlaps
      obtain rfl := List.mem_singleton.mp member
      show image.start - addr + min _ _ ≤ blockSize
      omega
  · exact absurd member List.not_mem_nil

theorem mem_allCopies_iff (suits : Suits stSize ramStart ramSize images)
    (isWhole : ramSize % blockSize = 0) :
    (∀ image ∈ images, ∀ k < image.size, image.copy k ∈ allCopies ramStart ramSize images) ↔
      ∀ addr ∈ blockAddrs ramStart ramSize, ∀ image ∈ images, ∀ k < image.size,
        addr ≤ image.start + k → image.start + k < addr + blockSize →
        image.copy k ∈ copiesAt images addr := by
  constructor
  · intro copied addr isBlock image member k isByte above below
    exact (mem_allCopies_of_block isBlock above below).mp (copied image member k isByte)
  · intro copied image member k isByte
    have inside := suits.inside image member
    unfold Image.stop at inside
    obtain ⟨addr, isBlock, above, below⟩ := @block_of_address ramStart ramSize (image.start + k) isWhole
      (by omega) (by omega)
    exact (mem_allCopies_of_block isBlock above below).mpr
      (copied addr isBlock image member k isByte above below)

/-- The fills are right exactly if they are right in every block. -/
theorem filled_iff {blocks : List MappedBlock} (suits : Suits stSize ramStart ramSize images)
    (isWhole : ramSize % blockSize = 0)
    (areBlocks : blocks.flatMap MappedBlock.copies = allCopies ramStart ramSize images)
    (within : ∀ block ∈ blocks, ∀ fill ∈ block.fill, fill.frameOffset + fill.length ≤ blockSize) :
    Filled stSize images blocks ↔ ∀ addr ∈ blockAddrs ramStart ramSize, Placed addr images := by
  have byBlock := mem_allCopies_iff suits isWhole
  have distinct := @allCopies_nodup ramStart ramSize images
  constructor
  · intro filled addr isBlock
    apply (filledAt_iff suits).mp
    constructor
    · apply byBlock.mp _ addr isBlock
      intro image member k isByte
      have isOne := filled.once image member k isByte
      rw [areBlocks] at isOne
      apply List.count_pos_iff.mp
      exact lt_of_lt_of_eq Nat.one_pos isOne.symm
    · intro copy member
      have isCopied : copy ∈ blocks.flatMap MappedBlock.copies := by
        rw [areBlocks]
        exact List.mem_flatMap.mpr ⟨addr, isBlock, member⟩
      obtain ⟨block, inBlocks, isCopy⟩ := List.mem_flatMap.mp isCopied
      exact filled.inFile block inBlocks copy isCopy
  · intro placed
    have filledAt : ∀ addr ∈ blockAddrs ramStart ramSize, FilledAt stSize images addr :=
      fun addr isBlock => (filledAt_iff suits).mpr (placed addr isBlock)
    refine ⟨?_, within, ?_⟩
    · intro image member k isByte
      rw [areBlocks]
      apply List.count_eq_one_of_mem distinct
      exact byBlock.mpr (fun addr isBlock => (filledAt addr isBlock).copied) image member k isByte
    · intro block inBlocks copy isCopy
      have isCopied := List.mem_flatMap.mpr ⟨block, inBlocks, isCopy⟩
      rw [areBlocks] at isCopied
      obtain ⟨addr, isBlock, inBlock⟩ := List.mem_flatMap.mp isCopied
      exact (filledAt addr isBlock).inFile copy inBlock

/-- The RAM is filled with exactly the images if and only if the first image that overlaps a block
reaches its start or its end, and the others that overlap it are empty. -/
theorem mapRam_filled_iff (mapPhys : Bool) (isAligned : ramStart % blockSize = 0)
    (isWhole : ramSize % blockSize = 0) (suits : Suits stSize ramStart ramSize images) :
    ∃ blocks, mapRam mapPhys ramStart ramSize images = some blocks ∧
      (Filled stSize images blocks ↔ ∀ addr ∈ blockAddrs ramStart ramSize, Placed addr images) := by
  refine ⟨_, if_pos ⟨isAligned, isWhole⟩, filled_iff suits isWhole ?_ ?_⟩
  · rw [List.flatMap_map, allCopies]
    apply List.flatMap_congr
    intro addr _
    exact copies_mapBlock mapPhys
  · intro block member fill isFill
    obtain ⟨addr, _, rfl⟩ := List.mem_map.mp member
    apply @blockFill_within addr images
    cases mapPhys <;> exact isFill

theorem VmImages.mappings_sized (stSize : String → Nat) (vm : VmImages) :
    ∀ image ∈ vm.mappings stSize, image.size = stSize image.fname := by
  intro image member
  unfold mappings at member
  cases isInitrd : vm.initrd with
  | none =>
      rw [isInitrd] at member
      simp only [Option.map_none, Option.toList_none, List.append_nil, List.cons_append,
        List.nil_append, List.mem_cons, List.not_mem_nil, or_false] at member
      rcases member with rfl | rfl <;> rfl
  | some initrd =>
      rw [isInitrd] at member
      simp only [Option.map_some, Option.toList_some, List.cons_append, List.nil_append,
        List.mem_cons, List.not_mem_nil, or_false] at member
      rcases member with rfl | rfl | rfl <;> rfl

/-- A guest without an initrd. -/
def exampleVm : VmImages := ⟨0x80080000, "vm_kernel.img", none, 0x82000000, "vm.dtb"⟩

def exampleSize (kernelSize : Nat) (fname : String) : Nat :=
  if fname = "vm.dtb" then 0x8000 else kernelSize

theorem exampleVm_suits {kernelSize : Nat} (fits : 0x80080000 + kernelSize ≤ 0x82000000) :
    Suits (exampleSize kernelSize) 0x80000000 0x10000000 (exampleVm.mappings (exampleSize kernelSize)) := by
  have areImages : exampleVm.mappings (exampleSize kernelSize) =
      [⟨0x80080000, kernelSize, "vm_kernel.img"⟩, ⟨0x82000000, 0x8000, "vm.dtb"⟩] := rfl
  refine ⟨?_, ?_, exampleVm.mappings_sized _⟩
  · rw [areImages]
    simp only [List.mem_cons, List.not_mem_nil, or_false, forall_eq_or_imp, forall_eq, Image.stop]
    omega
  · rw [areImages]
    apply List.pairwise_pair.mpr
    intro address _ _ _
    simp only [Image.stop] at *
    omega

/-- A kernel that is larger than what its first block has left. -/
theorem mapRam_filled_iff_exampleVm :
    ∃ blocks, mapRam false 0x80000000 0x10000000 (exampleVm.mappings (exampleSize 0x1000000)) =
        some blocks ∧
      (Filled (exampleSize 0x1000000) (exampleVm.mappings (exampleSize 0x1000000)) blocks ↔
        ∀ addr ∈ blockAddrs 0x80000000 0x10000000,
          Placed addr (exampleVm.mappings (exampleSize 0x1000000))) :=
  mapRam_filled_iff false (by decide) (by decide) (exampleVm_suits (by decide))

/-- A kernel of 1 MiB ends in its first block, whose fill copies 512 KiB more than it has. -/
theorem mapRam_overreads :
    Suits (exampleSize 0x100000) 0x80000000 0x10000000 (exampleVm.mappings (exampleSize 0x100000)) ∧
      ∃ blocks, mapRam false 0x80000000 0x10000000 (exampleVm.mappings (exampleSize 0x100000)) =
        some blocks ∧
      ¬ Filled (exampleSize 0x100000) (exampleVm.mappings (exampleSize 0x100000)) blocks := by
  refine ⟨exampleVm_suits (by decide), _, if_pos (by decide), fun filled => ?_⟩
  have isFill : blockFill (exampleVm.mappings (exampleSize 0x100000)) 0x80000000 =
      [⟨0x80000, 0x180000, "vm_kernel.img", 0⟩] := by decide +kernel
  have less := filled.inFile (mapBlock false 0x80000000 (blockFill _ 0x80000000))
    (List.mem_map_of_mem (mem_blockAddrs.mpr ⟨0, by decide, rfl⟩))
    ⟨0x80180000, "vm_kernel.img", 0x100000⟩ (by
      rw [isFill]
      refine List.mem_flatMap.mpr ⟨_, List.mem_singleton_self _, ?_⟩
      exact List.mem_map.mpr ⟨0x100000, List.mem_range.mpr (by decide), by decide⟩)
  exact absurd less (by decide)

end IceCap.Firmware
