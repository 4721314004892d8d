import Mathlib.Logic.Function.Basic
import Mathlib.Data.List.Basic
import IceCap.Library.Alignment

/-!
# Thread-local storage

At the start of a thread the runtime reserves a region for the thread's variables at
the top of the stack, and copies the TLS image of the program into it.  The size of
the region is computed in one place, its alignment in another and the place of the
image within it in a third.
-/

set_option autoImplicit false

namespace IceCap.Runtime

open Library

structure TlsImage where
  vaddr : UInt64
  filesz : UInt64
  memsz : UInt64
  align : UInt64

/-- The bytes in memory, and the stores in the order in which they were made. -/
structure Memory where
  bytes : UInt64 → UInt8
  stores : List (UInt64 × UInt8)

def Memory.store (memory : Memory) (addr : UInt64) (byte : UInt8) : Memory :=
  ⟨Function.update memory.bytes addr byte, memory.stores ++ [(addr, byte)]⟩

def gapAboveTpidr : UInt64 := 16

def roundUp (n b : UInt64) : UInt64 := n + if n % b = 0 then 0 else b - n % b

namespace TlsImage

variable (image : TlsImage)

def regionAlignOf : UInt64 := gapAboveTpidr ||| image.align

def regionSizeOf : UInt64 := roundUp gapAboveTpidr image.align + image.memsz

/-- A byte of the image in memory. -/
def source (i : Nat) : UInt64 := image.vaddr + .ofNat i

def copyByte (base : UInt64) (memory : Memory) (i : Nat) : Memory :=
  memory.store (base + .ofNat i) (memory.bytes (image.source i))

def clearByte (base : UInt64) (memory : Memory) (i : Nat) : Memory :=
  memory.store (base + .ofNat i) 0

/-- `__icecap_runtime_tls_region_init_of`.  The second loop goes on where the first one ended. -/
def regionInitOf (region : UInt64) (memory : Memory) : UInt64 × Memory :=
  let base := region + gapAboveTpidr
  let copied := (List.range image.filesz.toNat).foldl (image.copyByte base) memory
  let cleared := (List.range' image.filesz.toNat (image.memsz.toNat - image.filesz.toNat)).foldl
    (clearByte base) copied
  (region, cleared)

end TlsImage

/-- `__icecap_runtime_reserve_tls` -/
def reserveTls (sp size align : UInt64) : UInt64 :=
  let x3 := ~~~(align ||| 0xff)
  let x2 := sp - size
  x2 &&& x3

namespace TlsImage

variable (image : TlsImage)

/-- The region that `__icecap_runtime_start` reserves. -/
def region (sp : UInt64) : UInt64 := reserveTls sp image.regionSizeOf image.regionAlignOf

/-- The start of a thread up to the value of `tpidr`, with the bytes that are in memory. -/
def start (sp : UInt64) (bytes : UInt64 → UInt8) : UInt64 × Memory :=
  image.regionInitOf (image.region sp) ⟨bytes, []⟩

/-- Where the ABI has the image in a region. -/
def place (region : UInt64) : UInt64 := region + roundUp gapAboveTpidr image.align

/-- The stores that put the bytes of the image and the zeros behind them somewhere. -/
def contents (bytes : UInt64 → UInt8) (base : UInt64) : List (UInt64 × UInt8) :=
  (List.range image.memsz.toNat).map fun i =>
    (base + .ofNat i, if i < image.filesz.toNat then bytes (image.source i) else 0)

structure LaidOut (sp : UInt64) (bytes : UInt64 → UInt8) : Prop where
  aligned : image.align.toNat ∣ (image.region sp).toNat
  stackAligned : 16 ∣ (image.region sp).toNat
  below : (image.region sp).toNat + image.regionSizeOf.toNat ≤ sp.toNat
  stores : (image.start sp bytes).2.stores = image.contents bytes (image.place (image.region sp))
  within : ∀ store ∈ (image.start sp bytes).2.stores, (image.region sp).toNat ≤ store.1.toNat ∧
    store.1.toNat < (image.region sp).toNat + image.regionSizeOf.toNat
  tpidr : (image.start sp bytes).1 = image.region sp

/-- What the linker and the loader see to: the alignment is a power of two, the file has no more
than the image, the stack has room, and the image is not on that part of the stack. -/
structure Suits (sp : UInt64) : Prop where
  isPower : ∃ k, image.align.toNat = 2 ^ k
  filesz_le : image.filesz.toNat ≤ image.memsz.toNat
  room : (roundUp gapAboveTpidr image.align).toNat + image.memsz.toNat ≤ sp.toNat
  apart : ∀ i < image.filesz.toNat, (image.source i).toNat < (image.region sp).toNat ∨
    sp.toNat ≤ (image.source i).toNat

variable {image} {sp : UInt64} {bytes : UInt64 → UInt8}

/-! ## The region -/

theorem regionSizeOf_toNat (suits : image.Suits sp) :
    image.regionSizeOf.toNat = (roundUp gapAboveTpidr image.align).toNat + image.memsz.toNat := by
  have room := suits.room
  have less := sp.toNat_lt
  rw [regionSizeOf, UInt64.toNat_add]
  exact Nat.mod_eq_of_lt (by omega)

theorem roundUp_small (suits : image.Suits sp) (small : image.align.toNat ≤ 16) :
    roundUp gapAboveTpidr image.align = 16 := by
  obtain ⟨k, isPower⟩ := suits.isPower
  have divides : 2 ^ k ∣ 2 ^ 4 := by
    rw [isPower] at small
    exact Nat.pow_dvd_pow 2 ((Nat.pow_le_pow_iff_right (by decide)).mp small)
  have isZero : gapAboveTpidr % image.align = 0 := by
    apply UInt64.toNat_inj.mp
    rw [UInt64.toNat_mod, isPower]
    exact Nat.mod_eq_zero_of_dvd divides
  rw [roundUp, isZero, if_pos rfl]
  rfl

theorem roundUp_large (large : 16 < image.align.toNat) :
    roundUp gapAboveTpidr image.align = image.align := by
  have isLarge : gapAboveTpidr.toNat % image.align.toNat = 16 := Nat.mod_eq_of_lt large
  have isRest : gapAboveTpidr % image.align = 16 := by
    apply UInt64.toNat_inj.mp
    rw [UInt64.toNat_mod, isLarge]
    rfl
  rw [roundUp, isRest, if_neg (by decide)]
  unfold gapAboveTpidr
  rw [UInt64.add_comm, UInt64.sub_add_cancel]

theorem region_le (suits : image.Suits sp) :
    (image.region sp).toNat + image.regionSizeOf.toNat ≤ sp.toNat := by
  have room := suits.room
  rw [← regionSizeOf_toNat suits] at room
  have isDifference : (sp - image.regionSizeOf).toNat = sp.toNat - image.regionSizeOf.toNat :=
    UInt64.toNat_sub_of_le _ _ room
  have masked : (image.region sp).toNat ≤ (sp - image.regionSizeOf).toNat := by
    unfold region reserveTls
    rw [UInt64.toNat_and]
    exact Nat.and_le_left
  omega

/-- The bits that `__icecap_runtime_reserve_tls` clears. -/
theorem testBit_region {i k : Nat} (isPower : image.align.toNat = 2 ^ k) (isBit : i < 64) :
    (image.region sp).toNat.testBit i =
      ((sp - image.regionSizeOf).toNat.testBit i && !(decide (i < 8) || decide (k = i))) := by
  have isAlign : image.align.toBitVec.getLsbD i = decide (k = i) := by
    rw [← BitVec.testBit_toNat, UInt64.toNat_toBitVec, isPower, Nat.testBit_two_pow]
  have isMask : ∀ i < 64, ((16 : UInt64).toBitVec.getLsbD i || (0xff : UInt64).toBitVec.getLsbD i) =
      decide (i < 8) := by decide
  rw [← UInt64.toNat_toBitVec, BitVec.testBit_toNat, region, reserveTls, regionAlignOf, gapAboveTpidr,
    UInt64.toBitVec_and, UInt64.toBitVec_not, UInt64.toBitVec_or, UInt64.toBitVec_or,
    BitVec.getLsbD_and, BitVec.getLsbD_not, BitVec.getLsbD_or, BitVec.getLsbD_or, isAlign,
    decide_eq_true isBit, Bool.true_and, ← isMask i isBit, Bool.or_right_comm]
  rw [← UInt64.toNat_toBitVec (sp - _), BitVec.testBit_toNat]

theorem stackAligned (suits : image.Suits sp) : 16 ∣ (image.region sp).toNat := by
  obtain ⟨k, isPower⟩ := suits.isPower
  apply (@two_pow_dvd_iff (image.region sp).toNat 4).mpr
  intro i less
  have isLow : i < 8 := by omega
  rw [testBit_region isPower (by omega), decide_eq_true isLow]
  simp

/-- The mask has only the lowest bits and the one of the alignment, and none in between. -/
theorem aligned_iff (suits : image.Suits sp) : image.align.toNat ∣ (image.region sp).toNat ↔
    (sp - image.regionSizeOf).toNat % image.align.toNat < 256 := by
  obtain ⟨k, isPower⟩ := suits.isPower
  have kLess : k < 64 := by
    have less := image.align.toNat_lt
    rw [isPower] at less
    exact (Nat.pow_lt_pow_iff_right (by decide)).mp less
  rw [isPower]
  apply @two_pow_dvd_of_cleared _ k 8
  · intro i isLow
    rw [testBit_region isPower (by omega), decide_eq_true isLow]
    simp
  · intro i above below
    have notLow : ¬ i < 8 := by omega
    have notAlign : ¬ k = i := by omega
    rw [testBit_region isPower (by omega), decide_eq_false notLow, decide_eq_false notAlign]
    simp

/-! ## The stores -/

/-- Stores apart from the image leave it as it is. -/
theorem foldl_copyByte (base : UInt64) (count : Nat) (memory : Memory)
    (apart : ∀ i < count, ∀ j < count, base + .ofNat i ≠ image.source j) :
    ((List.range count).foldl (image.copyByte base) memory).stores = memory.stores ++
      (List.range count).map (fun i => (base + .ofNat i, memory.bytes (image.source i))) ∧
    ∀ addr, (∀ i < count, base + .ofNat i ≠ addr) →
      ((List.range count).foldl (image.copyByte base) memory).bytes addr = memory.bytes addr := by
  induction count with
  | zero => exact ⟨(List.append_nil _).symm, fun _ _ => rfl⟩
  | succ count ih =>
      obtain ⟨stores, untouched⟩ := ih fun i less j lessToo => apart i (by omega) j (by omega)
      have isByte := untouched (image.source count) fun i less => apart i (by omega) count (by omega)
      rw [List.range_succ, List.foldl_append, List.foldl_cons, List.foldl_nil, copyByte, Memory.store,
        stores, isByte]
      constructor
      · rw [List.map_append, ← List.append_assoc]
        rfl
      · intro addr others
        rw [← untouched addr fun i less => others i (by omega)]
        exact Function.update_of_ne (others count (by omega)).symm _ _

theorem foldl_clearByte (base : UInt64) (indices : List Nat) (memory : Memory) :
    (indices.foldl (clearByte base) memory).stores =
      memory.stores ++ indices.map fun i => (base + .ofNat i, 0) := by
  induction indices generalizing memory with
  | nil => exact (List.append_nil _).symm
  | cons index indices ih =>
      rw [List.foldl_cons, ih, clearByte, Memory.store, List.append_assoc]
      rfl

theorem gap_le_roundUp (suits : image.Suits sp) : 16 ≤ (roundUp gapAboveTpidr image.align).toNat := by
  by_cases small : image.align.toNat ≤ 16
  · rw [roundUp_small suits small]
    decide
  · rw [roundUp_large (Nat.lt_of_not_le small)]
    omega

/-- The bytes behind the gap are in the region. -/
theorem place_toNat (suits : image.Suits sp) {i : Nat} (isByte : i < image.memsz.toNat) :
    (image.region sp + gapAboveTpidr + .ofNat i).toNat = (image.region sp).toNat + 16 + i ∧
      (image.region sp).toNat + 16 + i < (image.region sp).toNat + image.regionSizeOf.toNat := by
  have within := region_le suits
  have isSize := regionSizeOf_toNat suits
  have gap := gap_le_roundUp suits
  have less := sp.toNat_lt
  have isGap : gapAboveTpidr.toNat = 16 := rfl
  constructor
  · rw [UInt64.toNat_add, UInt64.toNat_add, isGap, UInt64.toNat_ofNat']
    omega
  · omega

theorem start_stores (suits : image.Suits sp) :
    (image.start sp bytes).2.stores = image.contents bytes (image.region sp + gapAboveTpidr) := by
  have filesz_le := suits.filesz_le
  have within := region_le suits
  have isRange : List.range image.memsz.toNat = List.range image.filesz.toNat ++
      List.range' image.filesz.toNat (image.memsz.toNat - image.filesz.toNat) := by
    have joined := List.range'_append_1 (s := 0) (m := image.filesz.toNat)
      (n := image.memsz.toNat - image.filesz.toNat)
    rw [Nat.zero_add, Nat.add_sub_cancel' filesz_le] at joined
    rw [List.range_eq_range', List.range_eq_range', joined]
  obtain ⟨stores, _⟩ := @foldl_copyByte image (image.region sp + gapAboveTpidr) image.filesz.toNat
    ⟨bytes, []⟩ (by
      intro i less j lessToo same
      obtain ⟨isPlace, isInside⟩ := place_toNat suits (Nat.lt_of_lt_of_le less filesz_le)
      rw [same] at isPlace
      have outside := suits.apart j lessToo
      omega)
  unfold start regionInitOf contents
  rw [foldl_clearByte, stores, List.nil_append, isRange, List.map_append]
  congr 1
  · apply List.map_congr_left
    intro i member
    rw [if_pos (List.mem_range.mp member)]
  · apply List.map_congr_left
    intro i member
    have above := (List.mem_range'_1.mp member).1
    rw [if_neg (Nat.not_lt.mpr above)]

theorem within_region (suits : image.Suits sp) : ∀ store ∈ (image.start sp bytes).2.stores,
    (image.region sp).toNat ≤ store.1.toNat ∧
      store.1.toNat < (image.region sp).toNat + image.regionSizeOf.toNat := by
  rw [start_stores suits]
  intro store member
  obtain ⟨i, inImage, rfl⟩ := List.mem_map.mp member
  obtain ⟨isPlace, isInside⟩ := place_toNat suits (List.mem_range.mp inImage)
  rw [isPlace]
  omega

/-- The code puts the image 16 bytes into the region, whatever its alignment is. -/
theorem stores_iff (suits : image.Suits sp) :
    (image.start sp bytes).2.stores = image.contents bytes (image.place (image.region sp)) ↔
      image.align.toNat ≤ 16 ∨ image.memsz.toNat = 0 := by
  rw [start_stores suits]
  constructor
  · intro same
    by_contra neither
    obtain ⟨large, nonempty⟩ := not_or.mp neither
    unfold contents place at same
    rw [roundUp_large (Nat.lt_of_not_le large)] at same
    have first := List.map_inj_left.mp same 0 (List.mem_range.mpr (Nat.pos_of_ne_zero nonempty))
    have sameGap : gapAboveTpidr = image.align := by
      apply UInt64.add_right_inj (image.region sp) |>.mp
      apply UInt64.add_left_inj (.ofNat 0) |>.mp
      exact congrArg Prod.fst first
    rw [← sameGap] at large
    exact large (Nat.le_refl 16)
  · intro either
    rcases either with small | empty
    · rw [place, roundUp_small suits small]
      rfl
    · unfold contents
      rw [empty]
      rfl

/-- The region is laid out as the ABI has it exactly if the alignment is at most that of the gap,
or there are no variables and the stack is aligned by chance. -/
theorem laidOut_iff (image : TlsImage) (sp : UInt64) (bytes : UInt64 → UInt8) (suits : image.Suits sp) :
    image.LaidOut sp bytes ↔ image.align.toNat ≤ 16 ∨
      image.memsz.toNat = 0 ∧ sp.toNat % image.align.toNat < 256 := by
  have room := suits.room
  have isSize := regionSizeOf_toNat suits
  have isDifference : (sp - image.regionSizeOf).toNat = sp.toNat - image.regionSizeOf.toNat :=
    UInt64.toNat_sub_of_le _ _ (by rw [← isSize] at room; exact room)
  have remainder : 16 < image.align.toNat → image.memsz.toNat = 0 →
      (sp - image.regionSizeOf).toNat % image.align.toNat = sp.toNat % image.align.toNat := by
    intro large empty
    rw [roundUp_large large, empty, Nat.add_zero] at room isSize
    rw [isDifference, isSize]
    exact (Nat.mod_eq_sub_mod room).symm
  constructor
  · intro laidOut
    rcases (stores_iff suits).mp laidOut.stores with small | empty
    · exact .inl small
    by_cases small : image.align.toNat ≤ 16
    · exact .inl small
    have cleared := (aligned_iff suits).mp laidOut.aligned
    rw [remainder (Nat.lt_of_not_le small) empty] at cleared
    exact .inr ⟨empty, cleared⟩
  · intro either
    refine ⟨(aligned_iff suits).mpr ?_, stackAligned suits, region_le suits, ?_, within_region suits, rfl⟩
    · by_cases small : image.align.toNat ≤ 16
      · obtain ⟨k, isPower⟩ := suits.isPower
        have positive : 0 < image.align.toNat := by
          rw [isPower]
          exact Nat.two_pow_pos k
        have less := Nat.mod_lt (sp - image.regionSizeOf).toNat positive
        omega
      · obtain ⟨empty, cleared⟩ := either.resolve_left small
        rw [remainder (Nat.lt_of_not_le small) empty]
        exact cleared
    · exact (stores_iff suits).mpr (either.imp_right And.left)

/-- Three variables of eight bytes, one of them with a value in the file. -/
def exampleImage (align : UInt64) : TlsImage := ⟨0x400000, 8, 24, align⟩

theorem laidOut_iff_aligned16 : (exampleImage 16).LaidOut 0x80000000 (fun _ => 1) ↔
    (exampleImage 16).align.toNat ≤ 16 ∨ (exampleImage 16).memsz.toNat = 0 ∧
      (0x80000000 : UInt64).toNat % (exampleImage 16).align.toNat < 256 :=
  laidOut_iff (exampleImage 16) 0x80000000 (fun _ => 1)
    ⟨⟨4, by decide⟩, by decide, by decide, by decide⟩

/-- With an alignment of 64 the image is 48 bytes below its place; with one of 4096 the region is
not even aligned. -/
theorem start_misplaces :
    ((exampleImage 64).Suits 0x80000000 ∧ ¬ (exampleImage 64).LaidOut 0x80000000 fun _ => 1) ∧
    (exampleImage 4096).Suits 0x80000000 ∧
      ¬ (exampleImage 4096).align.toNat ∣ ((exampleImage 4096).region 0x80000000).toNat := by
  have suits : (exampleImage 64).Suits 0x80000000 :=
    ⟨⟨6, by decide⟩, by decide, by decide, by decide⟩
  refine ⟨⟨suits, fun laidOut => ?_⟩, ⟨⟨12, by decide⟩, by decide, by decide, by decide⟩, by decide⟩
  exact absurd ((stores_iff suits).mp laidOut.stores) (by decide)

end TlsImage

end IceCap.Runtime
