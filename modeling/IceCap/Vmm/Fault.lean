import Mathlib.Logic.Function.Basic
import Mathlib.Algebra.Group.Nat.Defs
import IceCap.Library.Exec

/-!
# Faults of guests on device memory

`fault.rs` and the registers of `types.rs`.  A load or a store that faults is
emulated: what it is, and with which register, is in the syndrome.  `none` is a
panic.  The architecture reads the register of number 31 as zero and ignores
what is written to it, and a load clears the bits above its width.
-/

set_option autoImplicit false

namespace IceCap.Vmm

/-- What a fault says about the access. -/
structure VMFault where
  addr : UInt64
  fsr : UInt64
  deriving DecidableEq, Repr

inductive VMFaultWidth where
  | byte
  | halfWord
  | word
  | doubleWord
  deriving DecidableEq, Repr

inductive VMFaultData where
  | byte (raw : UInt8)
  | halfWord (raw : UInt16)
  | word (raw : UInt32)
  | doubleWord (raw : UInt64)
  deriving DecidableEq, Repr

/-- `others` are registers that no method gets at. -/
structure UserContext where
  pc : UInt64
  sp : UInt64
  spsr : UInt64
  x : Fin 31 → UInt64
  others : List UInt64

namespace UserContext

def gpr (ctx : UserContext) (ix : UInt64) : Option UInt64 :=
  if isGpr : ix.toNat < 31 then some (ctx.x ⟨ix.toNat, isGpr⟩) else none

/-- What is put through `gpr_mut`. -/
def setGpr (ctx : UserContext) (ix : UInt64) (update : UInt64 → UInt64) : Option UserContext :=
  if isGpr : ix.toNat < 31 then
    some { ctx with x := Function.update ctx.x ⟨ix.toNat, isGpr⟩ (update (ctx.x ⟨ix.toNat, isGpr⟩)) }
  else none

def readGpr (ctx : UserContext) (ix : UInt64) : Option UInt64 :=
  if ix = 31 then some 0 else ctx.gpr ix

end UserContext

namespace VMFaultWidth

def mask : VMFaultWidth → UInt64
  | .byte => 0xff
  | .halfWord => 0xffff
  | .word => 0xffffffff
  | .doubleWord => ~~~0

def truncate (width : VMFaultWidth) (val : UInt64) : VMFaultData :=
  let val := val &&& width.mask
  match width with
  | .byte => .byte val.toUInt8
  | .halfWord => .halfWord val.toUInt16
  | .word => .word val.toUInt32
  | .doubleWord => .doubleWord val

end VMFaultWidth

namespace VMFaultData

def toUInt64 : VMFaultData → UInt64
  | .byte raw => raw.toUInt64
  | .halfWord raw => raw.toUInt64
  | .word raw => raw.toUInt64
  | .doubleWord raw => raw

def width : VMFaultData → VMFaultWidth
  | .byte _ => .byte
  | .halfWord _ => .halfWord
  | .word _ => .word
  | .doubleWord _ => .doubleWord

def set (data : VMFaultData) (oldVal : UInt64) : UInt64 :=
  (oldVal &&& ~~~data.width.mask) ||| data.toUInt64

end VMFaultData

namespace VMFault

def hsrSyndromeValid : UInt64 := (1 : UInt64) <<< 24

def srtMask : UInt64 := 0x1f

def isValid (fault : VMFault) : Bool := fault.fsr &&& hsrSyndromeValid != 0

def validHsr (fault : VMFault) : Option UInt64 := if fault.isValid then some fault.fsr else none

def width (fault : VMFault) : Option VMFaultWidth := do
  let hsr ← fault.validHsr
  match (hsr >>> 22) &&& 0x3 with
  | 0 => some .byte
  | 1 => some .halfWord
  | 2 => some .word
  | 3 => some .doubleWord
  | _ => none

def isAligned (fault : VMFault) : Option Bool := do
  let mask := match ← fault.width with
    | .byte => 0x0
    | .halfWord => 0x1
    | .word => 0x3
    | .doubleWord => 0x7
  pure (fault.addr &&& mask == 0)

def isWrite (fault : VMFault) : Option Bool := do
  let hsr ← fault.validHsr
  pure (hsr &&& (1 : UInt64) <<< 6 != 0)

def isRead (fault : VMFault) : Option Bool := fault.isWrite.map not

def gprIndex (fault : VMFault) : Option UInt64 := do
  let hsr ← fault.validHsr
  pure ((hsr >>> 16) &&& srtMask)

def data (fault : VMFault) (ctx : UserContext) : Option VMFaultData := do
  guard ((← fault.isWrite) = true)
  let width ← fault.width
  let val ← ctx.readGpr (← fault.gprIndex)
  pure (width.truncate val)

def emulateRead (fault : VMFault) (ctx : UserContext) (val : VMFaultData) : Option UserContext := do
  guard ((← fault.isRead) = true)
  guard ((← fault.width) = val.width)
  ctx.setGpr (← fault.gprIndex) val.set

end VMFault

/-! ## What the architecture prescribes -/

/-- The register that is transferred. -/
def VMFault.srt (fault : VMFault) : Nat := fault.fsr.toNat / 2 ^ 16 % 32

/-- The load extends the sign. -/
def VMFault.sse (fault : VMFault) : Bool := fault.fsr &&& (1 : UInt64) <<< 21 != 0

namespace UserContext

/-- The value of a register; number 31 is the zero register. -/
def register (ctx : UserContext) (t : Nat) : UInt64 :=
  if isGpr : t < 31 then ctx.x ⟨t, isGpr⟩ else 0

/-- The context after a load of a value into a register. -/
def loaded (ctx : UserContext) (t : Nat) (value : UInt64) : UserContext :=
  if isGpr : t < 31 then { ctx with x := Function.update ctx.x ⟨t, isGpr⟩ value } else ctx

end UserContext

/-! ## Registers -/

section Registers
variable {fault : VMFault} {ctx : UserContext} {width : VMFaultWidth} {val : VMFaultData}

theorem gprIndex_eq (isValid : fault.isValid = true) :
    ∃ ix, fault.gprIndex = some ix ∧ ix.toNat = fault.srt := by
  refine ⟨(fault.fsr >>> 16) &&& VMFault.srtMask, ?_, ?_⟩
  · simp [VMFault.gprIndex, VMFault.validHsr, isValid]
  · have isMask : VMFault.srtMask.toNat = 2 ^ 5 - 1 := rfl
    have isShift : (fault.fsr >>> 16).toNat = fault.fsr.toNat / 2 ^ 16 := by
      rw [UInt64.toNat_shiftRight, Nat.shiftRight_eq_div_pow]
      rfl
    rw [UInt64.toNat_and, isMask, Nat.and_two_pow_sub_one_eq_mod, isShift]
    rfl

theorem readGpr_eq {ix : UInt64} (small : ix.toNat < 32) :
    ctx.readGpr ix = some (ctx.register ix.toNat) := by
  unfold UserContext.readGpr UserContext.gpr UserContext.register
  by_cases isZero : ix = 31
  · subst isZero
    rfl
  · have isGpr : ix.toNat < 31 := by
      have differs : ix.toNat ≠ (31 : UInt64).toNat := fun same => isZero (UInt64.toNat_inj.mp same)
      have isLast : (31 : UInt64).toNat = 31 := rfl
      omega
    rw [if_neg isZero, dif_pos isGpr, dif_pos isGpr]

/-- A mask has the bits below a number. -/
def VMFaultWidth.bits : VMFaultWidth → Nat
  | .byte => 8
  | .halfWord => 16
  | .word => 32
  | .doubleWord => 64

theorem mask_eq (width : VMFaultWidth) : width.mask.toNat = 2 ^ width.bits - 1 := by
  cases width <;> rfl

theorem and_mask_toNat (width : VMFaultWidth) (val : UInt64) :
    (val &&& width.mask).toNat = val.toNat % 2 ^ width.bits := by
  rw [UInt64.toNat_and, mask_eq, Nat.and_two_pow_sub_one_eq_mod]

theorem truncate_width (width : VMFaultWidth) (val : UInt64) : (width.truncate val).width = width := by
  cases width <;> rfl

theorem truncate_toUInt64 (width : VMFaultWidth) (val : UInt64) :
    (width.truncate val).toUInt64 = val &&& width.mask := by
  have below := and_mask_toNat width val
  apply UInt64.toNat_inj.mp
  cases width with
  | byte =>
      change (val &&& VMFaultWidth.byte.mask).toUInt8.toUInt64.toNat = _
      rw [UInt8.toNat_toUInt64, UInt64.toNat_toUInt8, below]
      exact Nat.mod_mod _ _
  | halfWord =>
      change (val &&& VMFaultWidth.halfWord.mask).toUInt16.toUInt64.toNat = _
      rw [UInt16.toNat_toUInt64, UInt64.toNat_toUInt16, below]
      exact Nat.mod_mod _ _
  | word =>
      change (val &&& VMFaultWidth.word.mask).toUInt32.toUInt64.toNat = _
      rw [UInt32.toNat_toUInt64, UInt64.toNat_toUInt32, below]
      exact Nat.mod_mod _ _
  | doubleWord => rfl

/-- The data has no bits outside its mask. -/
theorem toUInt64_and_mask (val : VMFaultData) : val.toUInt64 &&& val.width.mask = val.toUInt64 := by
  apply UInt64.toNat_inj.mp
  rw [and_mask_toNat]
  cases val with
  | byte raw => exact Nat.mod_eq_of_lt raw.toNat_lt
  | halfWord raw => exact Nat.mod_eq_of_lt raw.toNat_lt
  | word raw => exact Nat.mod_eq_of_lt raw.toNat_lt
  | doubleWord raw => exact Nat.mod_eq_of_lt raw.toNat_lt

theorem set_eq_iff (val : VMFaultData) (oldVal : UInt64) :
    val.set oldVal = val.toUInt64 ↔ oldVal &&& ~~~val.width.mask = 0 := by
  have inside := toUInt64_and_mask val
  unfold VMFaultData.set
  generalize val.width.mask = mask at *
  generalize val.toUInt64 = value at *
  constructor
  · intro same
    apply UInt64.toBitVec_inj.mp
    apply BitVec.eq_of_getLsbD_eq
    intro i less
    have sameBit := congrArg (fun word => word.toBitVec.getLsbD i) same
    have insideBit := congrArg (fun word => word.toBitVec.getLsbD i) inside
    simp only [UInt64.toBitVec_or, UInt64.toBitVec_and, UInt64.toBitVec_not, BitVec.getLsbD_or,
      BitVec.getLsbD_and] at sameBit insideBit ⊢
    cases isSet : (~~~mask.toBitVec).getLsbD i with
    | false => simp
    | true =>
        have outside : mask.toBitVec.getLsbD i = false := by simpa [less] using isSet
        rw [outside, Bool.and_false] at insideBit
        rw [isSet, ← insideBit, Bool.and_true, Bool.or_false] at sameBit
        simpa using sameBit
  · intro isZero
    rw [isZero, UInt64.zero_or]

/-- Which bits of its register a load leaves in place. -/
theorem setGpr_eq_iff {ix : UInt64} (val : VMFaultData) :
    ctx.setGpr ix val.set = some (ctx.loaded ix.toNat val.toUInt64) ↔
      ix.toNat < 31 ∧ ctx.register ix.toNat &&& ~~~val.width.mask = 0 := by
  unfold UserContext.setGpr UserContext.loaded UserContext.register
  by_cases isGpr : ix.toNat < 31
  · rw [dif_pos isGpr, dif_pos isGpr, dif_pos isGpr, and_iff_right isGpr, ← set_eq_iff]
    constructor
    · intro same
      have sameX := congrFun (congrArg UserContext.x (Option.some.inj same)) ⟨ix.toNat, isGpr⟩
      simpa using sameX
    · intro same
      rw [same]
  · rw [dif_neg isGpr]
    exact iff_of_false nofun fun both => isGpr both.1

end Registers

/-! ## Loads and stores -/

section Emulation
variable {fault : VMFault}

theorem isValid_of_isWrite {answer : Bool} (isAnswer : fault.isWrite = some answer) :
    fault.isValid = true := by
  cases isValid : fault.isValid with
  | true => rfl
  | false => simp [VMFault.isWrite, VMFault.validHsr, isValid] at isAnswer

theorem data_eq {width : VMFaultWidth} (isWrite : fault.isWrite = some true)
    (isWidth : fault.width = some width) (ctx : UserContext) :
    ∃ val, fault.data ctx = some val ∧ val.width = width ∧
      val.toUInt64 = ctx.register fault.srt &&& width.mask := by
  obtain ⟨ix, isIndex, isSrt⟩ := gprIndex_eq (isValid_of_isWrite isWrite)
  have small : ix.toNat < 32 := isSrt ▸ Nat.mod_lt _ (by decide)
  have isVal : ctx.readGpr ix = some (ctx.register fault.srt) := isSrt ▸ readGpr_eq small
  refine ⟨width.truncate (ctx.register fault.srt), ?_, truncate_width _ _, truncate_toUInt64 _ _⟩
  unfold VMFault.data
  rw [isWrite, isWidth, isIndex]
  change (ctx.readGpr ix).bind (fun val => some (width.truncate val)) = _
  rw [isVal]
  rfl

theorem emulateRead_iff {val : VMFaultData} (isRead : fault.isRead = some true)
    (isWidth : fault.width = some val.width) (ctx : UserContext) :
    fault.emulateRead ctx val = some (ctx.loaded fault.srt val.toUInt64) ↔
      fault.srt ≠ 31 ∧ ctx.register fault.srt &&& ~~~val.width.mask = 0 := by
  obtain ⟨answer, isWrite, _⟩ := Option.map_eq_some_iff.mp isRead
  obtain ⟨ix, isIndex, isSrt⟩ := gprIndex_eq (isValid_of_isWrite isWrite)
  have small : fault.srt < 32 := Nat.mod_lt _ (by decide)
  have emulates : fault.emulateRead ctx val = ctx.setGpr ix val.set := by
    unfold VMFault.emulateRead
    rw [isRead, isWidth, isIndex]
    change (if val.width = val.width then some () else none).bind (fun _ => ctx.setGpr ix val.set) = _
    rw [if_pos rfl]
    rfl
  rw [emulates, ← isSrt, setGpr_eq_iff, isSrt]
  apply and_congr_left
  intro _
  omega

end Emulation

/-- A load is emulated as the architecture has it if and only if its register is not the zero register
and has no bits above the width.  A store always is. -/
theorem emulation_iff (fault : VMFault) (ctx : UserContext) :
    (∀ val, fault.isRead = some true → fault.isAligned = some true → fault.sse = false →
      fault.width = some (VMFaultData.width val) →
      (fault.emulateRead ctx val = some (ctx.loaded fault.srt val.toUInt64) ↔
        fault.srt ≠ 31 ∧ ctx.register fault.srt &&& ~~~val.width.mask = 0)) ∧
    (∀ width, fault.isWrite = some true → fault.width = some width →
      ∃ val, fault.data ctx = some val ∧ val.width = width ∧
        val.toUInt64 = ctx.register fault.srt &&& width.mask) ∧
    ∀ store before width, VMFault.isWrite store = some true → fault.isRead = some true →
      store.width = some width → fault.width = some width →
      ((∃ val, store.data before = some val ∧ fault.emulateRead ctx val =
          some (ctx.loaded fault.srt (before.register store.srt &&& width.mask))) ↔
        fault.srt ≠ 31 ∧ ctx.register fault.srt &&& ~~~width.mask = 0) := by
  refine ⟨?_, ?_, ?_⟩
  · intro val isRead _ _ isWidth
    exact emulateRead_iff isRead isWidth ctx
  · intro width isWrite isWidth
    exact data_eq isWrite isWidth ctx
  · intro store before width isWrite isRead storeWidth loadWidth
    obtain ⟨val, isData, rfl, isValue⟩ := data_eq isWrite storeWidth before
    rw [← emulateRead_iff isRead loadWidth ctx, isValue]
    constructor
    · intro stored
      obtain ⟨other, isOther, emulates⟩ := stored
      obtain rfl := Option.some.inj (isData.symm.trans isOther)
      exact emulates
    · intro emulates
      exact ⟨val, isData, emulates⟩

/-- A context with one value in every register. -/
def exampleContext (value : UInt64) : UserContext := ⟨0, 0, 0, fun _ => value, []⟩

/-- A load of a byte that is given the byte a store has put there, and its register. -/
theorem emulation_iff_byte :
    VMFault.emulateRead ⟨0, 0x1000000⟩ (exampleContext 0) (.byte 7) =
        some ((exampleContext 0).loaded 0 7) ∧
      (∃ val, VMFault.data ⟨0, 0x1000040⟩ (exampleContext 0x107) = some val ∧
        val.width = .byte ∧ val.toUInt64 = 7) ∧
      ∃ val, VMFault.data ⟨0, 0x1000040⟩ (exampleContext 0x107) = some val ∧
        VMFault.emulateRead ⟨0, 0x1000000⟩ (exampleContext 0) val =
          some ((exampleContext 0).loaded 0 7) :=
  ⟨((emulation_iff ⟨0, 0x1000000⟩ (exampleContext 0)).1 (.byte 7) (by decide) (by decide)
      (by decide) (by decide)).mpr (by decide),
    (emulation_iff ⟨0, 0x1000040⟩ (exampleContext 0x107)).2.1 .byte (by decide) (by decide),
    ((emulation_iff ⟨0, 0x1000000⟩ (exampleContext 0)).2.2 ⟨0, 0x1000040⟩ (exampleContext 0x107)
      .byte (by decide) (by decide) (by decide) (by decide)).mpr (by decide)⟩

/-- A load of a byte leaves the other bits of its register as they were, and one into the zero register
panics. -/
theorem load_keeps_upper_bits :
    VMFault.emulateRead ⟨0, 0x1000000⟩ (exampleContext 0x100) (.byte 7) ≠
        some ((exampleContext 0x100).loaded 0 7) ∧
      VMFault.emulateRead ⟨0, 0x11f0000⟩ (exampleContext 0) (.byte 7) = none := by
  constructor
  · intro emulates
    have isRead : VMFault.isRead ⟨0, 0x1000000⟩ = some true := by decide
    have isWidth : VMFault.width ⟨0, 0x1000000⟩ = some (VMFaultData.width (.byte 7)) := by
      decide
    exact absurd ((emulateRead_iff isRead isWidth _).mp emulates).2 (by decide)
  · rfl

end IceCap.Vmm
