import IceCap.Gic.Bits

/-!
# What a sweep finds

A sweep gives only pairs that pass its test, and misses none: each banked pair
that passes is there, and for a shared interrupt one of the cpus it passes for.
It panics if it comes to an enabled interrupt past the last one.
-/

set_option autoImplicit false

namespace IceCap.Gic.Distributor

open IceCap.Library

variable {numNodes : Nat}

section Nodes
variable {test : Irq → Cpu → Option Bool} {irq : Irq} {pairs : List (Irq × Cpu)}

theorem sweepNodes_isSome {nodes : List Cpu} (total : ∀ node ∈ nodes, ∃ bit, test irq node = some bit) :
    ∃ pairs, sweepNodes test irq nodes = some pairs := by
  induction nodes with
  | nil => exact ⟨[], rfl⟩
  | cons node rest ih =>
      obtain ⟨bit, isBit⟩ := total node List.mem_cons_self
      obtain ⟨more, isMore⟩ := ih fun other member => total other (List.mem_cons_of_mem _ member)
      simp only [sweepNodes, isBit, isMore, Option.bind_some, Option.map_some]
      cases bit with
      | false => exact ⟨more, rfl⟩
      | true =>
          by_cases isShared : irq ≥ 32
          · exact ⟨[(irq, node)], by simp [isShared]⟩
          · exact ⟨(irq, node) :: more, by simp [isShared]⟩

theorem sweepNodes_sound {nodes : List Cpu} (found : sweepNodes test irq nodes = some pairs) :
    ∀ pair ∈ pairs, pair.1 = irq ∧ pair.2 ∈ nodes ∧ test irq pair.2 = some true := by
  induction nodes generalizing pairs with
  | nil =>
      obtain rfl := Option.some.inj found
      simp
  | cons node rest ih =>
      simp only [sweepNodes, Option.bind_eq_some_iff] at found
      obtain ⟨bit, isBit, found⟩ := found
      intro pair member
      cases bit with
      | false =>
          obtain ⟨same, isNode, passes⟩ := ih found pair member
          exact ⟨same, List.mem_cons_of_mem _ isNode, passes⟩
      | true =>
          rw [if_pos rfl] at found
          by_cases isShared : irq ≥ 32
          · rw [if_pos isShared] at found
            obtain rfl := Option.some.inj found
            obtain rfl := List.mem_singleton.mp member
            exact ⟨rfl, List.mem_cons_self, isBit⟩
          · rw [if_neg isShared, Option.map_eq_some_iff] at found
            obtain ⟨more, isMore, rfl⟩ := found
            rcases List.mem_cons.mp member with rfl | later
            · exact ⟨rfl, List.mem_cons_self, isBit⟩
            · obtain ⟨same, isNode, passes⟩ := ih isMore pair later
              exact ⟨same, List.mem_cons_of_mem _ isNode, passes⟩

theorem sweepNodes_complete {nodes : List Cpu} (found : sweepNodes test irq nodes = some pairs)
    {node : Cpu} (isNode : node ∈ nodes) (passes : test irq node = some true) :
    ∃ cpu, (irq, cpu) ∈ pairs ∧ (irq < 32 → cpu = node) := by
  induction nodes generalizing pairs with
  | nil => simp at isNode
  | cons first rest ih =>
      simp only [sweepNodes, Option.bind_eq_some_iff] at found
      obtain ⟨bit, isBit, found⟩ := found
      cases bit with
      | false =>
          rcases List.mem_cons.mp isNode with rfl | later
          · rw [isBit] at passes
            simp at passes
          · exact ih found later
      | true =>
          rw [if_pos rfl] at found
          by_cases isShared : irq ≥ 32
          · rw [if_pos isShared] at found
            obtain rfl := Option.some.inj found
            exact ⟨first, List.mem_singleton.mpr rfl, fun isBanked => absurd isBanked (Nat.not_lt.mpr isShared)⟩
          · rw [if_neg isShared, Option.map_eq_some_iff] at found
            obtain ⟨more, isMore, rfl⟩ := found
            rcases List.mem_cons.mp isNode with rfl | later
            · exact ⟨node, List.mem_cons_self, fun _ => rfl⟩
            · obtain ⟨cpu, member, same⟩ := ih isMore later
              exact ⟨cpu, List.mem_cons_of_mem _ member, same⟩

end Nodes

section Irqs
variable {test : Irq → Cpu → Option Bool} {irqs : List Irq} {pairs : List (Irq × Cpu)}

theorem sweepIrqs_isSome
    (total : ∀ irq ∈ irqs, ∀ node < numNodes, ∃ bit, test irq node = some bit) :
    ∃ pairs, sweepIrqs numNodes test irqs = some pairs := by
  induction irqs with
  | nil => exact ⟨[], rfl⟩
  | cons irq rest ih =>
      obtain ⟨here, isHere⟩ : ∃ pairs, sweepNodes test irq (List.range numNodes) = some pairs :=
        sweepNodes_isSome fun node member =>
          total irq List.mem_cons_self node (List.mem_range.mp member)
      obtain ⟨more, isMore⟩ := ih fun other member => total other (List.mem_cons_of_mem _ member)
      exact ⟨here ++ more, by simp [sweepIrqs, isHere, isMore]⟩

/-- A test that panics for the first node makes the sweep panic. -/
theorem sweepIrqs_eq_none {irq : Irq} (isNode : 0 < numNodes) (member : irq ∈ irqs)
    (fails : test irq 0 = none) : sweepIrqs numNodes test irqs = none := by
  induction irqs with
  | nil => simp at member
  | cons first rest ih =>
      rcases List.mem_cons.mp member with rfl | later
      · obtain ⟨more, rfl⟩ := Nat.exists_eq_add_of_lt isNode
        simp [sweepIrqs, List.range_succ_eq_map, sweepNodes, fails]
      · simp [sweepIrqs, ih later]

theorem sweepIrqs_sound (found : sweepIrqs numNodes test irqs = some pairs) :
    ∀ pair ∈ pairs, pair.1 ∈ irqs ∧ pair.2 < numNodes ∧ test pair.1 pair.2 = some true := by
  induction irqs generalizing pairs with
  | nil =>
      obtain rfl := Option.some.inj found
      simp
  | cons irq rest ih =>
      simp only [sweepIrqs, Option.bind_eq_some_iff, Option.map_eq_some_iff] at found
      obtain ⟨here, isHere, more, isMore, rfl⟩ := found
      intro pair member
      rcases List.mem_append.mp member with first | later
      · obtain ⟨same, isNode, passes⟩ := sweepNodes_sound isHere pair first
        rw [same]
        exact ⟨List.mem_cons_self, List.mem_range.mp isNode, passes⟩
      · obtain ⟨isIrq, isNode, passes⟩ := ih isMore pair later
        exact ⟨List.mem_cons_of_mem _ isIrq, isNode, passes⟩

theorem sweepIrqs_complete (found : sweepIrqs numNodes test irqs = some pairs) {irq : Irq}
    {node : Cpu} (isIrq : irq ∈ irqs) (isNode : node < numNodes)
    (passes : test irq node = some true) :
    ∃ cpu, (irq, cpu) ∈ pairs ∧ (irq < 32 → cpu = node) := by
  induction irqs generalizing pairs with
  | nil => simp at isIrq
  | cons first rest ih =>
      simp only [sweepIrqs, Option.bind_eq_some_iff, Option.map_eq_some_iff] at found
      obtain ⟨here, isHere, more, isMore, rfl⟩ := found
      rcases List.mem_cons.mp isIrq with rfl | later
      · obtain ⟨cpu, member, same⟩ := sweepNodes_complete isHere (List.mem_range.mpr isNode) passes
        exact ⟨cpu, List.mem_append_left _ member, same⟩
      · obtain ⟨cpu, member, same⟩ := ih isMore later
        exact ⟨cpu, List.mem_append_right _ member, same⟩

end Irqs

/-! ## The two sweeps -/

section Sweeps
variable {dist : Distributor numNodes} {baseIrq numIrqs : Nat}

/-- There is an enabled interrupt past the last one. -/
def PastEnd (dist : Distributor numNodes) (baseIrq numIrqs : Nat) : Prop :=
  dist.isGicEnabled = true ∧
    ∃ irq, 1020 ≤ irq ∧ baseIrq ≤ irq ∧ irq < baseIrq + numIrqs ∧ enables.bit dist irq 0 = true

theorem shouldInject_isSome {irq node : Nat} (isIrq : irq < 1024) (isNode : node < numNodes)
    (notPast : dist.isGicEnabled = true → 1020 ≤ irq → enables.bit dist irq 0 = false) :
    ∃ bit, dist.shouldInject irq node = some bit := by
  by_cases inRange : irq < 1020
  · exact ⟨_, shouldInject_eq_some inRange⟩
  · have sees : Family.Sees (irq / 32) 0 node := fun isBanked => by omega
    rw [shouldInject_past_end (by omega) isIrq isNode, Family.bit_sees sees (by omega) isNode]
    by_cases isOn : dist.isGicEnabled = true
    · simp [notPast isOn (by omega)]
    · simp [isOn]

/-- Without such an interrupt, every test of a sweep goes through. -/
theorem shouldInject_total (inRange : baseIrq + numIrqs ≤ 1024)
    (notPast : ¬ dist.PastEnd baseIrq numIrqs) {irq node : Nat}
    (member : irq ∈ List.range' baseIrq numIrqs) (isNode : node < numNodes) :
    irq < 1024 ∧ ∃ bit, dist.shouldInject irq node = some bit := by
  rw [List.mem_range'_1] at member
  have isIrq : irq < 1024 := by omega
  refine ⟨isIrq, shouldInject_isSome isIrq isNode fun isOn past => ?_⟩
  by_contra enabled
  exact notPast ⟨isOn, irq, past, member.1, member.2, by simpa using enabled⟩

theorem sweepIrqsToInject_eq_none (isNode : 0 < numNodes) (inRange : baseIrq + numIrqs ≤ 1024) :
    sweepIrqsToInject baseIrq numIrqs dist = none ↔ dist.PastEnd baseIrq numIrqs := by
  constructor
  · intro isNone
    by_contra notPast
    obtain ⟨pairs, isSome⟩ := sweepIrqs_isSome fun irq member node less =>
      (shouldInject_total inRange notPast member less).2
    rw [sweepIrqsToInject, isSome] at isNone
    simp at isNone
  · rintro ⟨isOn, irq, past, low, high, enabled⟩
    refine sweepIrqs_eq_none isNode (List.mem_range'_1.mpr ⟨low, high⟩) ?_
    rw [shouldInject_past_end past (by omega) isNode, if_pos ⟨isOn, enabled⟩]

theorem sweepIrqsToAck_eq_none (isNode : 0 < numNodes) (inRange : baseIrq + numIrqs ≤ 1024) :
    sweepIrqsToAck baseIrq numIrqs dist = none ↔ dist.PastEnd baseIrq numIrqs := by
  constructor
  · intro isNone
    by_contra notPast
    have total : ∀ irq ∈ List.range' baseIrq numIrqs, ∀ node < numNodes,
        ∃ bit, dist.shouldAck irq node = some bit := by
      intro irq member node less
      obtain ⟨isIrq, bit, isBit⟩ := shouldInject_total inRange notPast member less
      rw [shouldAck, isBit]
      cases bit with
      | false => exact ⟨_, Family.test_eq_some isIrq⟩
      | true => exact ⟨false, rfl⟩
    obtain ⟨pairs, isSome⟩ := sweepIrqs_isSome total
    rw [sweepIrqsToAck, isSome] at isNone
    simp at isNone
  · rintro ⟨isOn, irq, past, low, high, enabled⟩
    refine sweepIrqs_eq_none isNode (List.mem_range'_1.mpr ⟨low, high⟩) ?_
    rw [shouldAck, shouldInject_past_end past (by omega) isNode, if_pos ⟨isOn, enabled⟩]
    rfl

theorem sweepBoth_eq_panic (isNode : 0 < numNodes) (inRange : baseIrq + numIrqs ≤ 1024) :
    sweepBoth baseIrq numIrqs dist = .panic ↔ dist.PastEnd baseIrq numIrqs := by
  have notPanic : ∀ toInject toAck (after : Distributor numNodes),
      ((if toInject.length = 0 ∧ toAck.length = 0 then pure WriteAction.noAction
        else pure (.injectAndAckIrqs (some toInject) (some toAck)) :
        Exec IrqError (Distributor numNodes) WriteAction) after) ≠ .panic := by
    intro toInject toAck after
    split <;> simp
  simp only [sweepBoth, Exec.bind_eq_panic, Exec.reads_eq_panic, Exec.reads_eq_ok, notPanic,
    and_false, exists_false, or_false, sweepIrqsToInject_eq_none isNode inRange]
  constructor
  · rintro (past | ⟨_, _, ⟨_, rfl⟩, past⟩)
    · exact past
    · exact (sweepIrqsToAck_eq_none isNode inRange).mp past
  · exact .inl

end Sweeps

end IceCap.Gic.Distributor
