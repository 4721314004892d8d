import Mathlib.Data.List.Basic
import IceCap.Library.Exec

/-!
# The registers of the GIC distributor

`Register32`, and which register an offset into the distributor names.  An
offset that names none makes the VMM panic.
-/

set_option autoImplicit false

namespace IceCap.Gic

abbrev Irq := Nat

abbrev Cpu := Nat

inductive IrqError where
  | invalidCpu (cpu : Cpu)
  | invalidIrq (irq : Irq)
  | invalidRegisterWrite
  | invalidRegisterRead
  deriving DecidableEq, Repr

abbrev Register32 := BitVec 32

/-- `Register32::set_byte`. -/
def setByte (reg : Register32) (byteIndex : Nat) (val : BitVec 8) : Register32 :=
  let mask := 0xff#32 <<< (byteIndex * 8)
  (reg &&& ~~~mask) ||| (val.setWidth 32 <<< (byteIndex * 8))

inductive DistRegWord where
  | ctlr
  | typer
  | iidr
  | igroupr (regNum : Nat)
  | isenabler (regNum : Nat)
  | icenabler (regNum : Nat)
  | ispendr (regNum : Nat)
  | icpendr (regNum : Nat)
  | isactiver (regNum : Nat)
  | icactiver (regNum : Nat)
  | ipriorityr (regNum : Nat)
  | itargetsr (regNum : Nat)
  | icfgr (regNum : Nat)
  | nsacr (regNum : Nat)
  | sgir
  | cpendsgir (regNum : Nat)
  | spendsgir (regNum : Nat)
  | iccidr (regNum : Nat)
  | icpidr (regNum : Nat)
  deriving DecidableEq, Repr

def calcRegNum (offset base : Nat) : Option Nat :=
  let regNum := (offset - base) / 4
  if regNum < 256 then some regNum else none

def calcRegByteOffset (offset base : Nat) : Option Nat :=
  let regByte := (offset - base) % 4
  if regByte < 4 then some regByte else none

/-- The ranges of offsets that name a numbered register. -/
def DistRegWord.ranges : List (Nat × Nat × (Nat → DistRegWord)) :=
  [(0x080, 0x0FC, .igroupr),
   (0x100, 0x17C, .isenabler),
   (0x180, 0x1FC, .icenabler),
   (0x200, 0x27C, .ispendr),
   (0x280, 0x2FC, .icpendr),
   (0x300, 0x37C, .isactiver),
   (0x380, 0x3FC, .icactiver),
   (0x400, 0x7F8, .ipriorityr),
   (0x800, 0xBF8, .itargetsr),
   (0xC00, 0xCFC, .icfgr),
   (0xE00, 0xEFC, .nsacr),
   (0xF10, 0xF1C, .cpendsgir),
   (0xF20, 0xF2C, .spendsgir),
   (0xFD0, 0xFEC, .icpidr),
   (0xFF0, 0xFFC, .iccidr)]

def DistRegWord.fromOffset (offset : Nat) : Option DistRegWord :=
  if offset = 0x000 then some .ctlr
  else if offset = 0x004 then some .typer
  else if offset = 0x008 then some .iidr
  else if offset = 0xF00 then some .sgir
  else
    (ranges.find? fun range => range.1 ≤ offset ∧ offset ≤ range.2.1).bind fun range =>
      (calcRegNum offset range.1).map range.2.2

inductive DistRegByte where
  | ipriorityr (regNum byteIndex : Nat)
  | itargetsr (regNum byteIndex : Nat)
  | cpendsgir (regNum byteIndex : Nat)
  | spendsgir (regNum byteIndex : Nat)
  deriving DecidableEq, Repr

def DistRegByte.fromOffset (offset : Nat) : Option DistRegByte :=
  let reg (make : Nat → Nat → DistRegByte) (base : Nat) : Option DistRegByte := do
    let regNum ← calcRegNum offset base
    let byteIndex ← calcRegByteOffset offset base
    some (make regNum byteIndex)
  if 0x400 ≤ offset ∧ offset ≤ 0x7F8 then reg .ipriorityr 0x400
  else if 0x800 ≤ offset ∧ offset ≤ 0xBF8 then reg .itargetsr 0x800
  else if 0xF10 ≤ offset ∧ offset ≤ 0xF1C then reg .cpendsgir 0xF10
  else if 0xF20 ≤ offset ∧ offset ≤ 0xF2C then reg .spendsgir 0xF20
  else none

namespace DistRegWord

/-- How many registers of each kind an offset can name. -/
def Numbered : DistRegWord → Prop
  | igroupr n | isenabler n | icenabler n | ispendr n | icpendr n | isactiver n | icactiver n =>
      n < 32
  | ipriorityr n | itargetsr n => n < 255
  | icfgr n | nsacr n => n < 64
  | cpendsgir n | spendsgir n | iccidr n => n < 4
  | icpidr n => n < 8
  | ctlr | typer | iidr | sgir => True

/-- Where a register is. -/
def offset : DistRegWord → Nat
  | ctlr => 0x000
  | typer => 0x004
  | iidr => 0x008
  | igroupr n => 0x080 + 4 * n
  | isenabler n => 0x100 + 4 * n
  | icenabler n => 0x180 + 4 * n
  | ispendr n => 0x200 + 4 * n
  | icpendr n => 0x280 + 4 * n
  | isactiver n => 0x300 + 4 * n
  | icactiver n => 0x380 + 4 * n
  | ipriorityr n => 0x400 + 4 * n
  | itargetsr n => 0x800 + 4 * n
  | icfgr n => 0xC00 + 4 * n
  | nsacr n => 0xE00 + 4 * n
  | sgir => 0xF00
  | cpendsgir n => 0xF10 + 4 * n
  | spendsgir n => 0xF20 + 4 * n
  | icpidr n => 0xFD0 + 4 * n
  | iccidr n => 0xFF0 + 4 * n

end DistRegWord

theorem calcRegNum_eq_some {offset base regNum : Nat} (isReg : calcRegNum offset base = some regNum) :
    regNum = (offset - base) / 4 := by
  unfold calcRegNum at isReg
  simp only [] at isReg
  split at isReg
  · exact (Option.some.inj isReg).symm
  · simp at isReg

theorem ranges_numbered {range : Nat × Nat × (Nat → DistRegWord)}
    (member : range ∈ DistRegWord.ranges) : 4 ∣ range.1 ∧ ∀ n, range.1 + 4 * n ≤ range.2.1 →
      (range.2.2 n).Numbered ∧ range.1 + 4 * n = (range.2.2 n).offset := by
  simp only [DistRegWord.ranges, List.mem_cons, List.not_mem_nil, or_false] at member
  rcases member with rfl | rfl | rfl | rfl | rfl | rfl | rfl | rfl | rfl | rfl | rfl | rfl | rfl |
    rfl | rfl
  all_goals
    refine ⟨by decide, fun n below => ⟨?_, rfl⟩⟩
    simp only [DistRegWord.Numbered] at below ⊢
    omega

/-- An aligned offset names the register that is there. -/
theorem fromOffset_eq_some {offset : Nat} {reg : DistRegWord} (aligned : 4 ∣ offset)
    (decodes : DistRegWord.fromOffset offset = some reg) :
    reg.Numbered ∧ offset = reg.offset := by
  unfold DistRegWord.fromOffset at decodes
  split at decodes
  · next isOffset => exact Option.some.inj decodes ▸ ⟨trivial, isOffset⟩
  split at decodes
  · next isOffset => exact Option.some.inj decodes ▸ ⟨trivial, isOffset⟩
  split at decodes
  · next isOffset => exact Option.some.inj decodes ▸ ⟨trivial, isOffset⟩
  split at decodes
  · next isOffset => exact Option.some.inj decodes ▸ ⟨trivial, isOffset⟩
  obtain ⟨range, found, isReg⟩ := Option.bind_eq_some_iff.mp decodes
  obtain ⟨regNum, isNumber, rfl⟩ := Option.map_eq_some_iff.mp isReg
  have inside := List.find?_some found
  simp only [decide_eq_true_eq] at inside
  obtain ⟨lowAligned, numbered⟩ := ranges_numbered (List.mem_of_find?_eq_some found)
  have isOffset : offset = range.1 + 4 * regNum := by
    have isNumber := calcRegNum_eq_some isNumber
    omega
  obtain ⟨isNumbered, isThere⟩ := numbered regNum (isOffset ▸ inside.2)
  exact ⟨isNumbered, isOffset.trans isThere⟩

/-- The offset of a register names it. -/
theorem fromOffset_offset {reg : DistRegWord} (numbered : reg.Numbered) :
    DistRegWord.fromOffset reg.offset = some reg := by
  cases reg with
  | ctlr | typer | iidr | sgir => rfl
  | igroupr n | isenabler n | icenabler n | ispendr n | icpendr n | isactiver n | icactiver n
  | cpendsgir n | spendsgir n | iccidr n | icpidr n =>
      revert n
      simp only [DistRegWord.Numbered]
      decide
  | ipriorityr n | itargetsr n | icfgr n | nsacr n =>
      revert n
      simp only [DistRegWord.Numbered]
      decide +kernel

end IceCap.Gic
