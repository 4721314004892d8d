import IceCap.Fdt.Devices

/-!
# The bindings of the chosen node and of the resource server, decoded

As for devices, the decoder is a specification of the layout that the writers of
the two nodes have, and no part of the program.
-/

set_option autoImplicit false

namespace IceCap.Fdt

open IceCap.Library

/-! ## The chosen node -/

/-- What the chosen node describes. -/
structure Boot where
  bootargs : Option String
  initrd : Option Range
  stdoutPath : Option String
  kaslrSeed : Option UInt64
  deriving DecidableEq, Repr

def Value.toAddress (spec : SizeSpec) (v : Value) : Option UInt64 := do
  match ← v.toCells [spec.addressCells] with
  | [address] => some (.ofNat address)
  | _ => none

def Boot.decode (spec : SizeSpec) (node : Node) : Option Boot := do
  let bootargs ← (node.getProperty "bootargs").mapM Value.toStr
  let start ← (node.getProperty "linux,initrd-start").mapM (Value.toAddress spec)
  let stop ← (node.getProperty "linux,initrd-end").mapM (Value.toAddress spec)
  let stdoutPath ← (node.getProperty "stdout-path").mapM Value.toStr
  let kaslrSeed ← (node.getProperty "kaslr-seed").mapM Value.toU64
  let initrd := start.bind fun start => stop.map fun stop => ⟨start, stop⟩
  pure { bootargs, initrd, stdoutPath, kaslrSeed }

@[simp]
theorem Node.getProperty_new (name : String) : new.getProperty name = none := rfl

/-- A property that is there or not. -/
def Node.setOptional (node : Node) (name : String) : Option Value → Node
  | some value => node.setProperty name value
  | none => node

@[simp]
theorem Node.getProperty_setOptional (node : Node) (name other : String) (value : Option Value) :
    (node.setOptional name value).getProperty other =
      if other = name then value.or (node.getProperty other) else node.getProperty other := by
  cases value with
  | none => simp [setOptional]
  | some value => simp [setOptional]

namespace Chosen

/-- What the chosen node is to describe. -/
def boot (self : Chosen) : Boot where
  bootargs := self.bootargs.map (" ".intercalate ·)
  initrd := self.initrd
  stdoutPath := self.stdoutPath
  kaslrSeed := self.kaslrSeed

def Renders (self : Chosen) (spec : SizeSpec) : Prop :=
  self.initrd ≠ none → Rendered spec.addressCells

/-- The node that `apply` makes. -/
def described (self : Chosen) (spec : SizeSpec) : Node :=
  let address v : Value := ⟨beBytes (4 * spec.addressCells.toNat) v⟩
  let node := Node.new
  let node := node.setOptional "bootargs" (self.boot.bootargs.map .ofStr)
  let node := node.setOptional "linux,initrd-start" (self.initrd.map (address ·.start.toNat))
  let node := node.setOptional "linux,initrd-end" (self.initrd.map (address ·.stop.toNat))
  let node := node.setOptional "stdout-path" (self.stdoutPath.map .ofStr)
  node.setOptional "kaslr-seed" (self.kaslrSeed.map .ofU64)

theorem apply_eq_some {chosen : Chosen} {dt final : DeviceTree} :
    chosen.apply dt = some final ↔ chosen.Renders dt.root.getSizeSpec ∧
      final = dt.setChild "chosen" (chosen.described dt.root.getSizeSpec) := by
  obtain ⟨bootargs, initrd, stdoutPath, kaslrSeed⟩ := chosen
  have addresses : ∀ v, Rendered dt.root.getSizeSpec.addressCells →
      dt.root.getSizeSpec.address v =
        some ⟨beBytes (4 * dt.root.getSizeSpec.addressCells.toNat) v.toNat⟩ :=
    fun v isRendered => render_eq_some.mpr ⟨isRendered, rfl⟩
  have fails : ∀ v, ¬ Rendered dt.root.getSizeSpec.addressCells →
      dt.root.getSizeSpec.address v = none :=
    fun v notRendered => Option.eq_none_iff_forall_ne_some.mpr fun value isSome =>
      notRendered (render_eq_some.mp isSome).1
  cases bootargs with
  | none | some bootargs =>
      cases stdoutPath with
      | none | some stdoutPath =>
          cases kaslrSeed with
          | none | some kaslrSeed =>
              cases initrd with
              | none => simp [Chosen.apply, Renders, described, boot, Node.setOptional, eq_comm]
              | some initrd =>
                  by_cases isRendered : Rendered dt.root.getSizeSpec.addressCells
                  · simp [Chosen.apply, Renders, described, boot, Node.setOptional, addresses,
                      isRendered, eq_comm]
                  · simp [Chosen.apply, Renders, fails, isRendered]

/-- The strings end where they are said to end, and the addresses have room. -/
structure Fits (self : Chosen) (spec : SizeSpec) : Prop where
  bootargs : ∀ bootargs ∈ self.boot.bootargs, NulFree bootargs
  initrd : ∀ initrd ∈ self.initrd, initrd.start.toNat < 256 ^ (4 * spec.addressCells.toNat) ∧
    initrd.stop.toNat < 256 ^ (4 * spec.addressCells.toNat)
  stdoutPath : ∀ stdoutPath ∈ self.stdoutPath, NulFree stdoutPath

theorem mapM_map_iff {α : Type} {given : α → Value} {found : Value → Option α} {x : Option α} :
    (x.map given).mapM found = some x ↔ ∀ v ∈ x, found (given v) = some v := by
  cases x with
  | none => simp
  | some v => simp

theorem toAddress_eq (spec : SizeSpec) (v : UInt64) :
    Value.toAddress spec ⟨beBytes (4 * spec.addressCells.toNat) v.toNat⟩ =
      some (.ofNat (v.toNat % 256 ^ (4 * spec.addressCells.toNat))) := by
  have cells := toCells_eq spec [.address v]
  simp only [List.map_cons, List.map_nil, Cells.count, Cells.value, fieldsOf, beFields,
    List.flatMap_cons, List.flatMap_nil, List.append_nil] at cells
  rw [Value.toAddress, cells]
  rfl

theorem ofNat_mod_eq_iff {v : UInt64} {modulus : Nat} (positive : 0 < modulus) :
    UInt64.ofNat (v.toNat % modulus) = v ↔ v.toNat < modulus := by
  have isCut := lt_of_le_of_lt (Nat.mod_le v.toNat modulus) v.toNat_lt
  rw [← UInt64.toNat_inj, UInt64.toNat_ofNat', Nat.mod_eq_of_lt isCut]
  constructor
  · intro same
    exact same ▸ Nat.mod_lt _ positive
  · exact Nat.mod_eq_of_lt

theorem mapM_toAddress (spec : SizeSpec) (x : Option UInt64) :
    (x.map fun v => (⟨beBytes (4 * spec.addressCells.toNat) v.toNat⟩ : Value)).mapM
      (Value.toAddress spec) =
        some (x.map fun v => .ofNat (v.toNat % 256 ^ (4 * spec.addressCells.toNat))) := by
  cases x with
  | none => rfl
  | some v => simp [toAddress_eq]

/-- What is described is decoded exactly if it has room. -/
theorem decode_described_iff {chosen : Chosen} {spec : SizeSpec} :
    Boot.decode spec (chosen.described spec) = some chosen.boot ↔ chosen.Fits spec := by
  have positive : 0 < 256 ^ (4 * spec.addressCells.toNat) := Nat.pow_pos (by decide)
  have isBootargs : (chosen.described spec).getProperty "bootargs" =
      chosen.boot.bootargs.map .ofStr := by simp [described]
  have isStart := mapM_toAddress spec (chosen.initrd.map Range.start)
  have isStop := mapM_toAddress spec (chosen.initrd.map Range.stop)
  have startProperty : (chosen.described spec).getProperty "linux,initrd-start" =
      (chosen.initrd.map Range.start).map fun v =>
        ⟨beBytes (4 * spec.addressCells.toNat) v.toNat⟩ := by
    simp [described, Function.comp_def]
  have stopProperty : (chosen.described spec).getProperty "linux,initrd-end" =
      (chosen.initrd.map Range.stop).map fun v =>
        ⟨beBytes (4 * spec.addressCells.toNat) v.toNat⟩ := by
    simp [described, Function.comp_def]
  have isPath : (chosen.described spec).getProperty "stdout-path" = chosen.stdoutPath.map .ofStr := by
    simp [described]
  have seedProperty : (chosen.described spec).getProperty "kaslr-seed" = chosen.kaslrSeed.map .ofU64 := by
    simp [described]
  have isSeed : (chosen.kaslrSeed.map Value.ofU64).mapM Value.toU64 = some chosen.kaslrSeed :=
    mapM_map_iff.mpr fun v _ => Value.toU64_ofU64 v
  simp only [Boot.decode, isBootargs, startProperty, isStart, stopProperty, isStop, isPath,
    seedProperty, isSeed, Option.bind_eq_bind, Option.bind_eq_some_iff, Option.pure_def,
    Option.some.injEq]
  constructor
  · rintro ⟨bootargs, foundBootargs, _, rfl, _, rfl, stdoutPath, foundPath, _, rfl, same⟩
    obtain ⟨rfl, sameInitrd, rfl, _⟩ := Boot.mk.injEq .. ▸ same
    refine ⟨?_, ?_, ?_⟩
    · exact fun bootargs isGiven => Value.toStr_ofStr_iff.mp (mapM_map_iff.mp foundBootargs _ isGiven)
    · intro initrd isGiven
      rw [Option.mem_def.mp isGiven] at sameInitrd
      have same := Option.some.inj sameInitrd
      exact ⟨(ofNat_mod_eq_iff positive).mp (congrArg Range.start same),
        (ofNat_mod_eq_iff positive).mp (congrArg Range.stop same)⟩
    · exact fun stdoutPath isGiven => Value.toStr_ofStr_iff.mp (mapM_map_iff.mp foundPath _ isGiven)
  · rintro ⟨bootargs, initrd, stdoutPath⟩
    have foundBootargs := mapM_map_iff.mpr fun s isGiven => Value.toStr_ofStr_iff.mpr (bootargs s isGiven)
    have foundPath := mapM_map_iff.mpr fun s isGiven => Value.toStr_ofStr_iff.mpr (stdoutPath s isGiven)
    refine ⟨_, foundBootargs, _, rfl, _, rfl, _, foundPath, _, rfl, ?_⟩
    refine congrArg (fun initrd => (⟨chosen.boot.bootargs, initrd, chosen.stdoutPath,
      chosen.kaslrSeed⟩ : Boot)) ?_
    cases isGiven : chosen.initrd with
    | none => rfl
    | some range =>
        obtain ⟨start, stop⟩ := range
        have room := initrd _ isGiven
        refine congrArg some ?_
        rw [Range.mk.injEq]
        exact ⟨(ofNat_mod_eq_iff positive).mpr room.1, (ofNat_mod_eq_iff positive).mpr room.2⟩

end Chosen

/-! ## The resource server -/

namespace ResourceServer

/-- The resource server that the properties of a node describe. -/
def decode (spec : SizeSpec) (node : Node) : Option ResourceServer := do
  let compatible ← (node.getProperty "compatible").bind Value.toStr
  let reg ← (node.getProperty "reg").bind (Value.toCells [spec.addressCells, spec.sizeCells])
  let endpoints ← (node.getProperty "endpoints").bind Value.toU64s
  if compatible = "icecap,resource-server" then
    match reg with
    | [start, size] => some ⟨.ofCells start size, endpoints⟩
    | _ => none
  else none

def cells (self : ResourceServer) : List Cells :=
  [.address self.bulkRegion.start, .size self.bulkRegion.len]

/-- The node that `apply` makes. -/
def described (self : ResourceServer) (spec : SizeSpec) : Node :=
  let node := Node.new.setCompatible "icecap,resource-server"
  let node := node.setProperty "reg" ⟨beFields (fieldsOf spec self.cells)⟩
  node.setProperty "endpoints" ⟨self.endpoints.flatMap fun endpoint => beBytes 8 endpoint.toNat⟩

variable {resourceServer : ResourceServer} {spec : SizeSpec}

theorem cells_rendered :
    (∀ cell ∈ resourceServer.cells, Rendered (cell.count spec)) ↔ spec.Renders := by
  simp only [cells, List.forall_mem_cons, Cells.count, List.not_mem_nil]
  exact ⟨fun all => ⟨all.1, all.2.1⟩, fun both => by simp [both.address, both.size]⟩

theorem apply_eq_some {dt final : DeviceTree} :
    resourceServer.applyWithDefaultName dt = some final ↔ dt.root.getSizeSpec.Renders ∧
      final = dt.setChild resourceServer.nodeName (resourceServer.described dt.root.getSizeSpec) := by
  simp only [applyWithDefaultName, apply, Option.bind_eq_bind, Option.bind_eq_some_iff,
    setPropertyCells_eq_some, Option.pure_def, Option.some.injEq, fieldsOf_raw64]
  constructor
  · rintro ⟨_, ⟨areRendered, rfl⟩, _, ⟨_, rfl⟩, rfl⟩
    exact ⟨cells_rendered.mp areRendered, rfl⟩
  · rintro ⟨isSpec, rfl⟩
    exact ⟨_, ⟨cells_rendered.mpr isSpec, rfl⟩, _, ⟨raw64_rendered _ _, rfl⟩, rfl⟩

/-- The resource server is decoded from its description exactly if its region has room. -/
theorem decode_described_iff : decode spec (resourceServer.described spec) = some resourceServer ↔
    resourceServer.bulkRegion.Fits spec := by
  have isKind : (Value.ofStr "icecap,resource-server").toStr = some "icecap,resource-server" :=
    Value.toStr_ofStr_iff.mpr (by decide)
  have reg : Value.toCells [spec.addressCells, spec.sizeCells]
      ⟨beFields (fieldsOf spec resourceServer.cells)⟩ = some [
        resourceServer.bulkRegion.start.toNat % 256 ^ (4 * spec.addressCells.toNat),
        resourceServer.bulkRegion.len.toNat % 256 ^ (4 * spec.sizeCells.toNat)] :=
    toCells_eq spec resourceServer.cells
  have endpoints := Value.toU64s_eq resourceServer.endpoints
  rw [← ofCells_eq_iff]
  obtain ⟨bulkRegion, others⟩ := resourceServer
  simp [decode, described, isKind, reg, endpoints]

end ResourceServer

end IceCap.Fdt
