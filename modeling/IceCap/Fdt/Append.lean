import IceCap.Fdt.Boot
import IceCap.Fdt.RoundTrip

/-!
# The tree of a guest with its devices

What `hypervisor-fdt-append-devices` writes is read as the tree that was given, with
the nodes that are added and nothing else changed.
-/

set_option autoImplicit false

namespace IceCap.Fdt

open IceCap.Library

/-! ## Names -/

theorem nulFree_append {first second : String} (isFirst : NulFree first) (isSecond : NulFree second) :
    NulFree (first ++ second) := by
  unfold NulFree at *
  rw [String.toList_append, List.mem_append]
  exact fun member => member.elim isFirst isSecond

theorem digitChar_ne_nul (n : Nat) : n.digitChar ≠ Char.ofNat 0 := by
  have digits : ∀ digit < 16, Nat.digitChar digit ≠ Char.ofNat 0 := by decide
  by_cases isDigit : n < 16
  · exact digits n isDigit
  · simp (disch := omega) only [Nat.digitChar, if_neg]
    decide

theorem toDigits_nulFree {base : Nat} (isBase : 1 < base) (n : Nat) :
    Char.ofNat 0 ∉ Nat.toDigits base n := by
  induction n using Nat.strong_induction_on with
  | _ n ih =>
      rw [Nat.toDigits_eq_if isBase]
      split
      · simp [(digitChar_ne_nul n).symm]
      · next notLess =>
          have smaller : n / base < n := Nat.div_lt_self (by omega) isBase
          simp [ih _ smaller, (digitChar_ne_nul (n % base)).symm]

theorem hex_nulFree (v : UInt64) : NulFree (hex v) := by
  unfold NulFree hex
  rw [String.toList_ofList]
  exact toDigits_nulFree (by decide) _

theorem nodeName_nulFree (device : Device) : NulFree device.nodeName := by
  cases device with
  | channel | net | con => exact nulFree_append (by decide) (hex_nulFree _)

theorem resourceServer_nulFree (resourceServer : ResourceServer) :
    NulFree resourceServer.nodeName := nulFree_append (by decide) (hex_nulFree _)

theorem cpuName_nulFree (i : Nat) : NulFree (cpuName i) := by
  refine nulFree_append (by decide) ?_
  rw [NulFree, Nat.toString_eq_ofList_toDigits, String.toList_ofList]
  exact toDigits_nulFree (by decide) _

theorem cpuName_injective {i j : Nat} (same : cpuName i = cpuName j) : i = j := by
  have sameDigits := congrArg String.toList same
  rw [cpuName, cpuName, String.toList_append, String.toList_append, List.append_cancel_left_eq,
    Nat.toString_eq_ofList_toDigits, Nat.toString_eq_ofList_toDigits, String.toList_ofList,
    String.toList_ofList] at sameDigits
  rw [← @Nat.ofDigitChars_ten_toDigits i, sameDigits, Nat.ofDigitChars_ten_toDigits]

theorem take_toList_append {before : String} (after : String) {k : Nat}
    (inside : k ≤ before.toList.length) :
    (before ++ after).toList.take k = before.toList.take k := by
  rw [String.toList_append, List.take_append_of_le_length inside]

/-- The names of devices tell themselves from others by how they begin. -/
theorem take_nodeName (device : Device) :
    device.nodeName.toList.take 8 ∈ ["icecap_c".toList, "icecap_n".toList] := by
  cases device with
  | channel | net | con =>
      rw [Device.nodeName, take_toList_append _ (by decide)]
      decide

theorem take_resourceServer (resourceServer : ResourceServer) :
    resourceServer.nodeName.toList.take 8 = "icecap_r".toList :=
  (@take_toList_append "icecap_resource_server@" _ 8 (by decide +kernel)).trans (by decide +kernel)

theorem nodeName_ne (device : Device) {other : String}
    (differs : other.toList.take 8 ∉ ["icecap_c".toList, "icecap_n".toList]) :
    device.nodeName ≠ other := fun same => differs (same ▸ take_nodeName device)

theorem resourceServer_ne (resourceServer : ResourceServer) {other : String}
    (differs : other.toList.take 8 ≠ "icecap_r".toList) : resourceServer.nodeName ≠ other :=
  fun same => differs (same ▸ take_resourceServer resourceServer)

theorem nodeName_ne_chosen (device : Device) : device.nodeName ≠ "chosen" :=
  nodeName_ne device (by decide)

theorem resourceServer_ne_chosen (resourceServer : ResourceServer) :
    resourceServer.nodeName ≠ "chosen" := resourceServer_ne resourceServer (by decide)

theorem nodeName_ne_resourceServer (device : Device) (resourceServer : ResourceServer) :
    device.nodeName ≠ resourceServer.nodeName :=
  nodeName_ne device (by
    rw [take_resourceServer]
    decide)

/-! ## Children -/

namespace Node

@[simp]
theorem getChild_setChild (node : Node) (name other : String) (child : Node) :
    (node.setChild name child).getChild other =
      if other = name then some child else node.getChild other := by
  split
  · next same => exact same ▸ SortedMap.get_insert_self _ _ _
  · next differs => exact SortedMap.get_insert_of_ne differs _ _

theorem getChild_entry {node child : Node} {name : String} {entry : String × Node}
    (isChild : node.getChild name = some child) (same : (name, child) = entry) :
    node.getChild entry.1 = some entry.2 := by
  subst same
  exact isChild

/-- One child after the other. -/
def setChildren (node : Node) (entries : List (String × Node)) : Node :=
  entries.foldl (fun node entry => node.setChild entry.1 entry.2) node

theorem properties_setChildren (node : Node) (entries : List (String × Node)) :
    (node.setChildren entries).properties = node.properties := by
  induction entries generalizing node with
  | nil => rfl
  | cons entry entries ih => exact ih (node.setChild entry.1 entry.2)

/-- A name holds what was put there last. -/
theorem getChild_setChildren (node : Node) (entries : List (String × Node)) (name : String) :
    (∃ child, (name, child) ∈ entries ∧ (node.setChildren entries).getChild name = some child) ∨
      (∀ child, (name, child) ∉ entries) ∧
        (node.setChildren entries).getChild name = node.getChild name := by
  induction entries generalizing node with
  | nil => exact .inr ⟨fun _ => List.not_mem_nil, rfl⟩
  | cons entry entries ih =>
      cases ih (node.setChild entry.1 entry.2) with
      | inl later =>
          obtain ⟨child, member, isChild⟩ := later
          exact .inl ⟨child, List.mem_cons_of_mem _ member, isChild⟩
      | inr notLater =>
          obtain ⟨notMember, isChild⟩ := notLater
          rw [getChild_setChild] at isChild
          by_cases same : name = entry.1
          · subst same
            rw [if_pos rfl] at isChild
            exact .inl ⟨entry.2, List.mem_cons_self, isChild⟩
          · rw [if_neg same] at isChild
            refine .inr ⟨fun child member => ?_, isChild⟩
            cases List.mem_cons.mp member with
            | inl isEntry => exact same (congrArg Prod.fst isEntry)
            | inr later => exact notMember child later

theorem getChild_setChildren_of_not_mem {node : Node} {entries : List (String × Node)} {name : String}
    (notMember : ∀ child, (name, child) ∉ entries) :
    (node.setChildren entries).getChild name = node.getChild name := by
  cases getChild_setChildren node entries name with
  | inl put =>
      obtain ⟨child, member, _⟩ := put
      exact absurd member (notMember child)
  | inr kept => exact kept.2

theorem new_good : new.All Good :=
  .mk ⟨⟨List.Pairwise.nil, List.Pairwise.nil⟩, List.forall_mem_nil _, List.forall_mem_nil _⟩
    (List.forall_mem_nil _)

theorem setProperty_good {node : Node} (good : node.All Good) {name : String}
    (nulFree : Fdt.NulFree name) (value : Value) : (node.setProperty name value).All Good := by
  cases good with
  | @mk properties children here below =>
      have goodMaps : GoodMaps (properties, children) := ⟨here, below⟩
      have maps := goodMaps.property value nulFree
      exact .mk maps.1 maps.2

theorem setOptional_good {node : Node} (good : node.All Good) {name : String}
    (nulFree : Fdt.NulFree name) (value : Option Value) : (node.setOptional name value).All Good := by
  cases value with
  | none => exact good
  | some value => exact setProperty_good good nulFree value

theorem setChild_good {node child : Node} (good : node.All Good) {name : String}
    (nulFree : Fdt.NulFree name) (goodChild : child.All Good) :
    (node.setChild name child).All Good := by
  cases good with
  | @mk properties children here below =>
      have goodMaps : GoodMaps (properties, children) := ⟨here, below⟩
      have maps := goodMaps.child nulFree goodChild
      exact .mk maps.1 maps.2

theorem setChildren_good {node : Node} (good : node.All Good) {entries : List (String × Node)}
    (goodEntries : ∀ entry ∈ entries, Fdt.NulFree entry.1 ∧ entry.2.All Good) :
    (node.setChildren entries).All Good := by
  induction entries generalizing node with
  | nil => exact good
  | cons entry entries ih =>
      obtain ⟨nulFree, goodChild⟩ := goodEntries entry List.mem_cons_self
      exact ih (setChild_good good nulFree goodChild) fun later member =>
        goodEntries later (List.mem_cons_of_mem _ member)

theorem getChild_good {node child : Node} (good : node.All Good) {name : String}
    (isChild : node.getChild name = some child) : child.All Good := by
  cases good with
  | mk here below => exact below _ (SortedMap.mem_of_get isChild)

end Node

def DeviceTree.setChildren (dt : DeviceTree) (entries : List (String × Node)) : DeviceTree :=
  { dt with root := dt.root.setChildren entries }

@[simp]
theorem DeviceTree.setChildren_nil (dt : DeviceTree) : dt.setChildren [] = dt := rfl

theorem DeviceTree.setChildren_append (dt : DeviceTree) (first second : List (String × Node)) :
    dt.setChildren (first ++ second) = (dt.setChildren first).setChildren second := by
  simp [setChildren, Node.setChildren, List.foldl_append]

@[simp]
theorem getSizeSpec_setChildren (dt : DeviceTree) (entries : List (String × Node)) :
    (dt.setChildren entries).root.getSizeSpec = dt.root.getSizeSpec := by
  simp only [DeviceTree.setChildren, Node.getSizeSpec, Node.getAddressCells, Node.getSizeCells,
    Node.getProperty, Node.properties_setChildren]

/-- The cpus behind the first one. -/
def cpuEntries (numCpus : Nat) (cpu0 : Node) : List (String × Node) :=
  (List.range' 1 (numCpus - 1)).map fun i => (cpuName i, cpu0.setProperty "reg" (.ofU32 (.ofNat i)))

theorem mem_cpuEntries {numCpus : Nat} {cpu0 : Node} {entry : String × Node} :
    entry ∈ cpuEntries numCpus cpu0 ↔ ∃ i, 0 < i ∧ i < numCpus ∧
      entry = (cpuName i, cpu0.setProperty "reg" (.ofU32 (.ofNat i))) := by
  rw [cpuEntries, List.mem_map]
  constructor
  · intro ⟨i, isMember, same⟩
    have bounds := List.mem_range'_1.mp isMember
    exact ⟨i, by omega, by omega, same.symm⟩
  · intro ⟨i, positive, less, same⟩
    exact ⟨i, List.mem_range'_1.mpr (by omega), same.symm⟩

theorem addCpus_eq (numCpus : Nat) (cpus cpu0 : Node) :
    addCpus numCpus cpus cpu0 = cpus.setChildren (cpuEntries numCpus cpu0) := by
  rw [addCpus, Node.setChildren, cpuEntries, List.foldl_map]

/-! ## What is described can be written -/

theorem ringBuffer_good {node : Node} (good : node.All Good) (ringBuffer : RingBuffer)
    (spec : SizeSpec) : (ringBuffer.described node spec).All Good := by
  have isReg := Node.setProperty_good good (show NulFree "reg" by decide)
    ⟨beFields (fieldsOf spec ringBuffer.cells)⟩
  unfold RingBuffer.described
  cases ringBuffer.kick with
  | raw notification =>
      exact Node.setProperty_good (Node.setProperty_good isReg (by decide) _) (by decide) _
  | managed endpoints message =>
      exact Node.setProperty_good (Node.setProperty_good (Node.setProperty_good isReg (by decide) _)
        (by decide) _) (by decide) _

theorem Device.described_good (device : Device) (spec : SizeSpec) :
    (device.described spec).All Good := by
  have compatible : ∀ kind, (Node.new.setCompatible kind).All Good := fun kind =>
    Node.setProperty_good Node.new_good (by decide) _
  cases device with
  | channel dev =>
      exact ringBuffer_good (Node.setProperty_good (Node.setProperty_good (Node.setProperty_good
        (compatible _) (by decide) _) (by decide) _) (by decide) _) _ _
  | net dev =>
      exact ringBuffer_good (Node.setProperty_good (Node.setProperty_good (Node.setProperty_good
        (compatible _) (by decide) _) (by decide) _) (by decide) _) _ _
  | con dev => exact ringBuffer_good (Node.setProperty_good (compatible _) (by decide) _) _ _

theorem Chosen.described_good (chosen : Chosen) (spec : SizeSpec) :
    (chosen.described spec).All Good := by
  have bootargs := Node.setOptional_good Node.new_good (show NulFree "bootargs" by decide)
  have start := fun value => Node.setOptional_good (bootargs value)
    (show NulFree "linux,initrd-start" by decide)
  have stop := fun value other => Node.setOptional_good (start value other)
    (show NulFree "linux,initrd-end" by decide)
  exact Node.setOptional_good (Node.setOptional_good (stop _ _ _) (by decide) _) (by decide) _

theorem ResourceServer.described_good (resourceServer : ResourceServer) (spec : SizeSpec) :
    (resourceServer.described spec).All Good :=
  Node.setProperty_good (Node.setProperty_good (Node.setProperty_good Node.new_good (by decide) _)
    (by decide) _) (by decide) _

/-! ## What is added -/

namespace Input

def chosenEntries (self : Input) (spec : SizeSpec) : List (String × Node) :=
  (self.chosen.map fun chosen => ("chosen", chosen.described spec)).toList

def deviceEntries (self : Input) (spec : SizeSpec) : List (String × Node) :=
  self.devices.map fun device => (device.nodeName, device.described spec)

def serverEntries (self : Input) (spec : SizeSpec) : List (String × Node) :=
  (self.resourceServer.map fun server => (server.nodeName, server.described spec)).toList

def entries (self : Input) (spec : SizeSpec) : List (String × Node) :=
  self.chosenEntries spec ++ (self.deviceEntries spec ++ self.serverEntries spec)

/-- The numbers of cells are handled where there is something to render in them. -/
structure Renders (self : Input) (spec : SizeSpec) : Prop where
  chosen : ∀ chosen ∈ self.chosen, chosen.Renders spec
  devices : self.devices ≠ [] → spec.Renders
  resourceServer : self.resourceServer ≠ none → spec.Renders

variable {input : Input} {dt final : DeviceTree}

theorem chosen_eq_some : input.chosen.elim (some dt) (·.apply dt) = some final ↔
    (∀ chosen ∈ input.chosen, chosen.Renders dt.root.getSizeSpec) ∧
      final = dt.setChildren (input.chosenEntries dt.root.getSizeSpec) := by
  unfold chosenEntries
  cases input.chosen with
  | none => simp [eq_comm]
  | some chosen => simp [Chosen.apply_eq_some, DeviceTree.setChildren, Node.setChildren,
      DeviceTree.setChild]

theorem devices_eq_some {devices : List Device} :
    devices.foldlM (fun dt device => device.apply dt) dt = some final ↔
      (devices ≠ [] → dt.root.getSizeSpec.Renders) ∧ final = dt.setChildren
        (devices.map fun device => (device.nodeName, device.described dt.root.getSizeSpec)) := by
  induction devices generalizing dt with
  | nil => simp [eq_comm]
  | cons device devices ih =>
      rw [List.foldlM_cons, Option.bind_eq_bind, Option.bind_eq_some_iff]
      constructor
      · intro ⟨middle, isMiddle, isFinal⟩
        obtain ⟨isSpec, rfl⟩ := apply_eq_some.mp isMiddle
        exact ⟨fun _ => isSpec, (ih.mp isFinal).2⟩
      · intro ⟨isSpec, isFinal⟩
        have renders := isSpec (List.cons_ne_nil _ _)
        exact ⟨_, apply_eq_some.mpr ⟨renders, rfl⟩, ih.mpr ⟨fun _ => renders, isFinal⟩⟩

theorem resourceServer_eq_some :
    input.resourceServer.elim (some dt) (·.applyWithDefaultName dt) = some final ↔
      (input.resourceServer ≠ none → dt.root.getSizeSpec.Renders) ∧
        final = dt.setChildren (input.serverEntries dt.root.getSizeSpec) := by
  unfold serverEntries
  cases input.resourceServer with
  | none => simp [eq_comm]
  | some server => simp [ResourceServer.apply_eq_some, DeviceTree.setChildren, Node.setChildren,
      DeviceTree.setChild]

theorem mem_entries {spec : SizeSpec} {entry : String × Node} : entry ∈ input.entries spec ↔
    (∃ chosen ∈ input.chosen, entry = ("chosen", chosen.described spec)) ∨
      (∃ device ∈ input.devices, entry = (device.nodeName, device.described spec)) ∨
        ∃ server ∈ input.resourceServer, entry = (server.nodeName, server.described spec) := by
  simp [entries, chosenEntries, deviceEntries, serverEntries, eq_comm]

theorem cpus_not_mem (spec : SizeSpec) (child : Node) : ("cpus", child) ∉ input.entries spec := by
  intro member
  obtain ⟨_, _, same⟩ | ⟨device, _, same⟩ | ⟨server, _, same⟩ := mem_entries.mp member
  · exact absurd (congrArg Prod.fst same) (show "cpus" ≠ "chosen" by decide)
  · exact @nodeName_ne device "cpus" (by decide) (congrArg Prod.fst same).symm
  · exact @resourceServer_ne server "cpus" (by decide) (congrArg Prod.fst same).symm

/-- The tree that `append` makes. -/
def appended (input : Input) (dt : DeviceTree) (cpus cpu0 : Node) : DeviceTree :=
  (dt.setChildren (input.entries dt.root.getSizeSpec)).setChild "cpus"
    (addCpus input.numCpus cpus cpu0)

theorem append_eq (input : Input) (dt : DeviceTree) : input.append dt =
    (input.chosen.elim (some dt) (·.apply dt)).bind fun dt =>
      (input.devices.foldlM (fun dt (device : Device) => device.apply dt) dt).bind fun dt =>
        (input.resourceServer.elim (some dt) (·.applyWithDefaultName dt)).bind fun dt =>
          (dt.root.getChild "cpus").bind fun cpus => (cpus.getChild "cpu@0").bind fun cpu0 =>
            some (dt.setChild "cpus" (addCpus input.numCpus cpus cpu0)) := by
  obtain ⟨chosen, devices, resourceServer, numCpus⟩ := input
  cases chosen with
  | none | some chosen =>
      cases resourceServer with
      | none | some server => rfl

theorem append_eq_some : input.append dt = some final ↔ input.Renders dt.root.getSizeSpec ∧
    ∃ cpus cpu0, dt.root.getChild "cpus" = some cpus ∧ cpus.getChild "cpu@0" = some cpu0 ∧
      final = input.appended dt cpus cpu0 := by
  have noCpus : (dt.setChildren (input.entries dt.root.getSizeSpec)).root.getChild "cpus" =
      dt.root.getChild "cpus" := Node.getChild_setChildren_of_not_mem (cpus_not_mem _)
  simp only [append_eq, Option.bind_eq_some_iff, chosen_eq_some, devices_eq_some,
    resourceServer_eq_some]
  constructor
  · rintro ⟨_, ⟨isChosen, rfl⟩, _, ⟨areDevices, rfl⟩, _, ⟨isServer, rfl⟩, cpus, isCpus, cpu0,
      isCpu0, isFinal⟩
    simp only [getSizeSpec_setChildren] at areDevices isServer isCpus isFinal
    rw [← DeviceTree.setChildren_append, ← DeviceTree.setChildren_append] at isCpus isFinal
    exact ⟨⟨isChosen, areDevices, isServer⟩, cpus, cpu0, noCpus.symm.trans isCpus, isCpu0,
      (Option.some.inj isFinal).symm⟩
  · rintro ⟨⟨isChosen, areDevices, isServer⟩, cpus, cpu0, isCpus, isCpu0, rfl⟩
    refine ⟨_, ⟨isChosen, rfl⟩, _, ⟨?_, rfl⟩, _, ⟨?_, rfl⟩, cpus, ?_, cpu0, isCpu0, ?_⟩
    · rwa [getSizeSpec_setChildren]
    · rwa [getSizeSpec_setChildren, getSizeSpec_setChildren]
    · simp only [getSizeSpec_setChildren]
      rw [← DeviceTree.setChildren_append, ← DeviceTree.setChildren_append]
      exact noCpus.trans isCpus
    · simp only [getSizeSpec_setChildren]
      rw [← DeviceTree.setChildren_append, ← DeviceTree.setChildren_append]
      rfl

theorem appended_good {cpus cpu0 : Node} (good : dt.root.All Good)
    (isCpus : dt.root.getChild "cpus" = some cpus) (isCpu0 : cpus.getChild "cpu@0" = some cpu0) :
    (input.appended dt cpus cpu0).root.All Good := by
  have goodCpus := Node.getChild_good good isCpus
  have goodCpu0 := Node.getChild_good goodCpus isCpu0
  apply Node.setChild_good (Node.setChildren_good good ?_) (by decide)
  · rw [addCpus_eq]
    refine Node.setChildren_good goodCpus fun entry member => ?_
    obtain ⟨i, _, _, rfl⟩ := mem_cpuEntries.mp member
    exact ⟨cpuName_nulFree i, Node.setProperty_good goodCpu0 (by decide) _⟩
  · intro entry member
    obtain ⟨chosen, _, rfl⟩ | ⟨device, _, rfl⟩ | ⟨server, _, rfl⟩ := mem_entries.mp member
    · exact ⟨show NulFree "chosen" by decide, chosen.described_good _⟩
    · exact ⟨nodeName_nulFree device, device.described_good _⟩
    · exact ⟨resourceServer_nulFree server, server.described_good _⟩

/-! ## What is decoded -/

/-- All that is to be described is decoded from the tree. -/
structure DecodedFrom (input : Input) (dt : DeviceTree) : Prop where
  chosen : ∀ chosen ∈ input.chosen,
    (dt.root.getChild "chosen").bind (Boot.decode dt.root.getSizeSpec) = some chosen.boot
  devices : ∀ device ∈ input.devices,
    (dt.root.getChild device.nodeName).bind (Device.decode dt.root.getSizeSpec) = some device
  resourceServer : ∀ server ∈ input.resourceServer,
    (dt.root.getChild server.nodeName).bind (ResourceServer.decode dt.root.getSizeSpec) = some server

/-- Everything has room, and no two devices are put in one place. -/
structure Fits (input : Input) (spec : SizeSpec) : Prop where
  chosen : ∀ chosen ∈ input.chosen, chosen.Fits spec
  devices : ∀ device ∈ input.devices, device.Fits spec
  apart : ∀ first ∈ input.devices, ∀ second ∈ input.devices,
    first.nodeName = second.nodeName → first = second
  resourceServer : ∀ server ∈ input.resourceServer, server.bulkRegion.Fits spec

section Appended
variable {cpus cpu0 : Node}

theorem spec_appended : (input.appended dt cpus cpu0).root.getSizeSpec = dt.root.getSizeSpec :=
  getSizeSpec_setChildren dt (input.entries dt.root.getSizeSpec)

/-- What is put at a name is found there. -/
theorem getChild_appended {entry : String × Node}
    (member : entry ∈ input.entries dt.root.getSizeSpec) :
    ∃ child, (entry.1, child) ∈ input.entries dt.root.getSizeSpec ∧
      (input.appended dt cpus cpu0).root.getChild entry.1 = some child := by
  have notCpus : entry.1 ≠ "cpus" := fun same => cpus_not_mem dt.root.getSizeSpec entry.2 (by
    rw [← same]
    exact member)
  have unchanged : (input.appended dt cpus cpu0).root.getChild entry.1 =
      (dt.root.setChildren (input.entries dt.root.getSizeSpec)).getChild entry.1 :=
    (Node.getChild_setChild _ _ _ _).trans (if_neg notCpus)
  rw [unchanged]
  cases Node.getChild_setChildren dt.root (input.entries dt.root.getSizeSpec) entry.1 with
  | inl put => exact put
  | inr kept => exact absurd member (kept.1 entry.2)

theorem getChild_chosen {chosen : Chosen} (isChosen : chosen ∈ input.chosen) :
    (input.appended dt cpus cpu0).root.getChild "chosen" =
      some (chosen.described dt.root.getSizeSpec) := by
  obtain ⟨child, member, isChild⟩ := @getChild_appended input dt cpus cpu0 _
    (mem_entries.mpr (.inl ⟨chosen, isChosen, rfl⟩))
  obtain ⟨other, isOther, same⟩ | ⟨device, _, same⟩ | ⟨server, _, same⟩ :=
    mem_entries.mp member
  · obtain rfl : other = chosen := Option.mem_unique isOther isChosen
    exact Node.getChild_entry isChild same
  · exact absurd (congrArg Prod.fst same).symm (nodeName_ne_chosen device)
  · exact absurd (congrArg Prod.fst same).symm (resourceServer_ne_chosen server)

theorem getChild_device {device : Device} (isDevice : device ∈ input.devices) :
    ∃ other ∈ input.devices, other.nodeName = device.nodeName ∧
      (input.appended dt cpus cpu0).root.getChild device.nodeName =
        some (other.described dt.root.getSizeSpec) := by
  obtain ⟨child, member, isChild⟩ := @getChild_appended input dt cpus cpu0 _
    (mem_entries.mpr (.inr (.inl ⟨device, isDevice, rfl⟩)))
  obtain ⟨_, _, same⟩ | ⟨other, isOther, same⟩ | ⟨server, _, same⟩ := mem_entries.mp member
  · exact absurd (congrArg Prod.fst same) (nodeName_ne_chosen device)
  · have sameName : device.nodeName = other.nodeName := congrArg Prod.fst same
    exact ⟨other, isOther, sameName.symm, sameName ▸ Node.getChild_entry isChild same⟩
  · exact absurd (congrArg Prod.fst same) (nodeName_ne_resourceServer device server)

/-- No other device is found at the name of one whose name is its own. -/
theorem getChild_device_of_apart {device : Device} (isDevice : device ∈ input.devices)
    (apart : ∀ other ∈ input.devices, other.nodeName = device.nodeName → other = device) :
    (input.appended dt cpus cpu0).root.getChild device.nodeName =
      some (device.described dt.root.getSizeSpec) := by
  obtain ⟨other, isOther, sameName, isChild⟩ := @getChild_device input dt cpus cpu0 _ isDevice
  rw [isChild, apart other isOther sameName]

theorem getChild_server {server : ResourceServer} (isServer : server ∈ input.resourceServer) :
    (input.appended dt cpus cpu0).root.getChild server.nodeName =
      some (server.described dt.root.getSizeSpec) := by
  obtain ⟨child, member, isChild⟩ := @getChild_appended input dt cpus cpu0 _
    (mem_entries.mpr (.inr (.inr ⟨server, isServer, rfl⟩)))
  obtain ⟨_, _, same⟩ | ⟨device, _, same⟩ | ⟨other, isOther, same⟩ := mem_entries.mp member
  · exact absurd (congrArg Prod.fst same) (resourceServer_ne_chosen server)
  · exact absurd (congrArg Prod.fst same).symm (nodeName_ne_resourceServer device server)
  · obtain rfl : other = server := Option.mem_unique isOther isServer
    exact Node.getChild_entry isChild same

theorem decodedFrom_iff :
    input.DecodedFrom (input.appended dt cpus cpu0) ↔ input.Fits dt.root.getSizeSpec := by
  constructor
  · intro ⟨chosen, devices, resourceServer⟩
    rw [spec_appended] at chosen devices resourceServer
    -- what is decoded at the name of two devices is only one of them
    have apart : ∀ first ∈ input.devices, ∀ second ∈ input.devices,
        first.nodeName = second.nodeName → first = second := by
      intro first isFirst second isSecond sameName
      have found := devices first isFirst
      rw [sameName, devices second isSecond] at found
      exact (Option.some.inj found).symm
    refine ⟨?_, ?_, apart, ?_⟩
    · intro given isGiven
      have found := chosen given isGiven
      rw [getChild_chosen isGiven, Option.bind_some] at found
      exact Chosen.decode_described_iff.mp found
    · intro device isDevice
      have found := devices device isDevice
      have ownName := fun other isOther => apart other isOther device isDevice
      rw [getChild_device_of_apart isDevice ownName, Option.bind_some] at found
      exact decode_described_iff.mp found
    · intro server isServer
      have found := resourceServer server isServer
      rw [getChild_server isServer, Option.bind_some] at found
      exact ResourceServer.decode_described_iff.mp found
  · intro ⟨chosen, devices, apart, resourceServer⟩
    refine ⟨?_, ?_, ?_⟩
    · intro given isGiven
      rw [spec_appended, getChild_chosen isGiven, Option.bind_some]
      exact Chosen.decode_described_iff.mpr (chosen given isGiven)
    · intro device isDevice
      have ownName := fun other isOther => apart other isOther device isDevice
      rw [spec_appended, getChild_device_of_apart isDevice ownName, Option.bind_some]
      exact decode_described_iff.mpr (devices device isDevice)
    · intro server isServer
      rw [spec_appended, getChild_server isServer, Option.bind_some]
      exact ResourceServer.decode_described_iff.mpr (resourceServer server isServer)

/-! ## What is kept -/

/-- Nothing else has changed, and every cpu behind the first one is a copy of it with its own number. -/
structure Keeps (input : Input) (given final : DeviceTree) : Prop where
  memRsvmap : final.memRsvmap = given.memRsvmap
  bootCpuidPhys : final.bootCpuidPhys = given.bootCpuidPhys
  properties : final.root.properties = given.root.properties
  children : ∀ name, name ≠ "cpus" → (input.chosen ≠ none → name ≠ "chosen") →
    (∀ device ∈ input.devices, name ≠ device.nodeName) →
    (∀ server ∈ input.resourceServer, name ≠ server.nodeName) →
    final.root.getChild name = given.root.getChild name
  cpus : ∃ before after cpu0, given.root.getChild "cpus" = some before ∧
    final.root.getChild "cpus" = some after ∧ before.getChild "cpu@0" = some cpu0 ∧
    after.properties = before.properties ∧
    (∀ i, 0 < i → i < input.numCpus →
      after.getChild (cpuName i) = some (cpu0.setProperty "reg" (.ofU32 (.ofNat i)))) ∧
    ∀ name, (∀ i, 0 < i → i < input.numCpus → name ≠ cpuName i) →
      after.getChild name = before.getChild name

theorem getChild_addCpus {numCpus i : Nat} (positive : 0 < i) (less : i < numCpus) :
    (addCpus numCpus cpus cpu0).getChild (cpuName i) =
      some (cpu0.setProperty "reg" (.ofU32 (.ofNat i))) := by
  rw [addCpus_eq]
  cases Node.getChild_setChildren cpus (cpuEntries numCpus cpu0) (cpuName i) with
  | inl put =>
      obtain ⟨child, member, isChild⟩ := put
      obtain ⟨j, _, _, same⟩ := mem_cpuEntries.mp member
      obtain rfl := cpuName_injective (congrArg Prod.fst same)
      exact Node.getChild_entry isChild same
  | inr kept => exact absurd (mem_cpuEntries.mpr ⟨i, positive, less, rfl⟩) (kept.1 _)

theorem getChild_addCpus_of_ne {numCpus : Nat} {name : String}
    (differs : ∀ i, 0 < i → i < numCpus → name ≠ cpuName i) :
    (addCpus numCpus cpus cpu0).getChild name = cpus.getChild name := by
  rw [addCpus_eq]
  apply Node.getChild_setChildren_of_not_mem
  intro child member
  obtain ⟨i, positive, less, same⟩ := mem_cpuEntries.mp member
  exact differs i positive less (congrArg Prod.fst same)

theorem appended_keeps (isCpus : dt.root.getChild "cpus" = some cpus)
    (isCpu0 : cpus.getChild "cpu@0" = some cpu0) : input.Keeps dt (input.appended dt cpus cpu0) := by
  refine ⟨rfl, rfl, Node.properties_setChildren _ _, ?_, ?_⟩
  · intro name notCpus notChosen notDevice notServer
    refine ((Node.getChild_setChild _ _ _ _).trans (if_neg notCpus)).trans ?_
    apply Node.getChild_setChildren_of_not_mem
    intro child member
    obtain ⟨chosen, isChosen, same⟩ | ⟨device, isDevice, same⟩ | ⟨server, isServer, same⟩ :=
      mem_entries.mp member
    · exact notChosen (Option.ne_none_iff_exists'.mpr ⟨chosen, isChosen⟩) (congrArg Prod.fst same)
    · exact notDevice device isDevice (congrArg Prod.fst same)
    · exact notServer server isServer (congrArg Prod.fst same)
  · refine ⟨cpus, addCpus input.numCpus cpus cpu0, cpu0, isCpus, ?_, isCpu0, ?_, ?_, ?_⟩
    · exact (Node.getChild_setChild _ _ _ _).trans (if_pos rfl)
    · rw [addCpus_eq]
      exact Node.properties_setChildren _ _
    · exact fun i positive less => getChild_addCpus positive less
    · exact fun name differs => getChild_addCpus_of_ne differs

end Appended

/-! ## The tool -/

variable {checks : Bool} {dtb out : List UInt8}

theorem main_eq_some : input.main checks dtb = some out ↔ ∃ given final,
    DeviceTree.read checks dtb () = .ok given () ∧ input.append given = some final ∧
      out = final.write := by
  unfold main
  cases isRead : DeviceTree.read checks dtb () with
  | ok given last =>
      change ((input.append given).bind fun dt => some dt.write) = some out ↔ _
      constructor
      · intro done
        obtain ⟨final, appends, isOut⟩ := Option.bind_eq_some_iff.mp done
        exact ⟨given, final, rfl, appends, (Option.some.inj isOut).symm⟩
      · rintro ⟨_, final, same, appends, rfl⟩
        cases same
        exact Option.bind_eq_some_iff.mpr ⟨final, appends, rfl⟩
  | err failure final => simp
  | panic => simp

/-- The tool panics exactly on a blob that cannot be read, a tree without a first cpu, and numbers of
cells that it cannot render something in. -/
theorem main_returns_iff (checks : Bool) (input : Input) (dtb : List UInt8) :
    input.main checks dtb ≠ none ↔ ∃ given, DeviceTree.read checks dtb () = .ok given () ∧
      input.Renders given.root.getSizeSpec ∧
      ∃ cpus, given.root.getChild "cpus" = some cpus ∧ cpus.getChild "cpu@0" ≠ none := by
  rw [Option.ne_none_iff_exists']
  simp only [main_eq_some, append_eq_some, Option.ne_none_iff_exists']
  constructor
  · rintro ⟨_, given, _, isRead, ⟨renders, cpus, cpu0, isCpus, isCpu0, rfl⟩, rfl⟩
    exact ⟨given, isRead, renders, cpus, isCpus, cpu0, isCpu0⟩
  · rintro ⟨given, isRead, renders, cpus, isCpus, cpu0, isCpu0⟩
    exact ⟨_, given, _, isRead, ⟨renders, cpus, cpu0, isCpus, isCpu0, rfl⟩, rfl⟩

/-- What is written is read as the tree with what is added. -/
theorem main_reads (done : input.main checks dtb = some out) (short : out.length < u32Modulus) :
    ∃ given cpus cpu0, DeviceTree.read checks dtb () = .ok given () ∧
      given.root.getChild "cpus" = some cpus ∧ cpus.getChild "cpu@0" = some cpu0 ∧
      DeviceTree.read checks out () = .ok (input.appended given cpus cpu0) () := by
  obtain ⟨given, _, isRead, appends, rfl⟩ := main_eq_some.mp done
  obtain ⟨_, cpus, cpu0, isCpus, isCpu0, rfl⟩ := append_eq_some.mp appends
  obtain ⟨good, noEnd⟩ := DeviceTree.read_good isRead
  exact ⟨given, cpus, cpu0, isRead, isCpus, isCpu0,
    DeviceTree.read_write_ok checks (appended_good good isCpus isCpu0) noEnd short⟩

/-! ## A guest -/

def exampleCpu : Node := Node.new.setProperty "reg" (.ofU32 0)

def exampleCpus : Node := Node.new.setChild "cpu@0" exampleCpu

def exampleGuest : DeviceTree where
  memRsvmap := []
  root := ((Node.new.setProperty "#address-cells" (.ofU32 2)).setProperty "#size-cells"
    (.ofU32 2)).setChild "cpus" exampleCpus
  bootCpuidPhys := 0

/-- A console, with the initial file system, the resource server and a second cpu. -/
def exampleInput : Input where
  chosen := some ⟨some ["console=hvc0", "quiet"], some ⟨0x48000000, 0x49000000⟩, none, none⟩
  devices := [.con {
    ringBuffer := {
      read := ⟨⟨0x80000000, 0x80001000⟩, ⟨0x80001000, 0x80002000⟩⟩
      write := ⟨⟨0x80002000, 0x80003000⟩, ⟨0x80003000, 0x80004000⟩⟩
      kick := .managed [3, 4] 1 }
    irq := 42 }]
  resourceServer := some ⟨⟨0x90000000, 0x90200000⟩, [5, 6]⟩
  numCpus := 2

theorem exampleGuest_good : exampleGuest.root.All Good := by
  have cpu := Node.setProperty_good Node.new_good (show NulFree "reg" by decide) (.ofU32 0)
  have cpus := Node.setChild_good Node.new_good (show NulFree "cpu@0" by decide) cpu
  exact Node.setChild_good (Node.setProperty_good (Node.setProperty_good Node.new_good
    (by decide) _) (by decide) _) (by decide) cpus

def exampleBlob : List UInt8 := (exampleInput.appended exampleGuest exampleCpus exampleCpu).write

theorem main_exampleInput : exampleInput.main true exampleGuest.write = some exampleBlob := by
  have isRead : DeviceTree.read true exampleGuest.write () = .ok exampleGuest () :=
    DeviceTree.read_write_ok true exampleGuest_good (List.forall_mem_nil _) (by decide +kernel)
  have renders : SizeSpec.Renders exampleGuest.root.getSizeSpec :=
    ⟨.inr (by decide +kernel), .inr (by decide +kernel)⟩
  exact main_eq_some.mpr ⟨exampleGuest, _, isRead, append_eq_some.mpr
    ⟨⟨fun _ _ _ => renders.address, fun _ => renders, fun _ => renders⟩, exampleCpus, exampleCpu,
      rfl, rfl, rfl⟩, rfl⟩

/-- The boot arguments, the devices and the resource server are decoded from what the tool has
written exactly if all of them have room and no device takes the place of another. -/
theorem main_decodes_iff (done : input.main checks dtb = some out) (short : out.length < u32Modulus) :
    ∃ given final, DeviceTree.read checks dtb () = .ok given () ∧
      DeviceTree.read checks out () = .ok final () ∧
      (input.DecodedFrom final ↔ input.Fits given.root.getSizeSpec) := by
  obtain ⟨given, cpus, cpu0, isRead, _, _, readAgain⟩ := main_reads done short
  exact ⟨given, _, isRead, readAgain, decodedFrom_iff⟩

theorem main_decodes_iff_exampleInput : ∃ given final,
    DeviceTree.read true exampleGuest.write () = .ok given () ∧
    DeviceTree.read true exampleBlob () = .ok final () ∧
    (exampleInput.DecodedFrom final ↔ exampleInput.Fits given.root.getSizeSpec) :=
  main_decodes_iff main_exampleInput (by decide +kernel)

/-- The tool leaves alone what it does not add. -/
theorem main_keeps (done : input.main checks dtb = some out) (short : out.length < u32Modulus) :
    ∃ given final, DeviceTree.read checks dtb () = .ok given () ∧
      DeviceTree.read checks out () = .ok final () ∧ input.Keeps given final := by
  obtain ⟨given, cpus, cpu0, isRead, isCpus, isCpu0, readAgain⟩ := main_reads done short
  exact ⟨given, _, isRead, readAgain, appended_keeps isCpus isCpu0⟩

theorem main_keeps_exampleInput : ∃ given final,
    DeviceTree.read true exampleGuest.write () = .ok given () ∧
    DeviceTree.read true exampleBlob () = .ok final () ∧ exampleInput.Keeps given final :=
  main_keeps main_exampleInput (by decide +kernel)

end Input

end IceCap.Fdt
