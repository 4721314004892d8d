import IceCap.Gic.Bits

/-!
# What a write leaves alone

A write changes the registers it goes to and possibly the pending bits, and
nothing else; and one that is refused changes nothing at all.
-/

set_option autoImplicit false

namespace IceCap.Gic.Distributor

open IceCap.Library

variable {numNodes : Nat}

section Keeps
variable {γ : Type} {view : Distributor numNodes → γ} {family : Family numNodes} {nodeIndex : Nat}

/-- What is not stored in the registers of a family. -/
def Family.Leaves (family : Family numNodes) (view : Distributor numNodes → γ) : Prop :=
  ∀ regs0 regs dist, view (family.put regs0 regs dist) = view dist

theorem Family.update_keeps {regNum : Nat} {change : Register32 → Register32}
    (leaves : family.Leaves view) : Exec.Keeps view (family.update regNum nodeIndex change) := by
  refine (Exec.Keeps.reads _).bind fun reg => .modify fun dist => ?_
  split <;> exact leaves _ _ _

theorem Family.updateBit_keeps {irq cpu : Nat} {change : Register32 → Register32 → Register32}
    (leaves : family.Leaves view) : Exec.Keeps view (family.updateBit irq cpu change) :=
  .ite (.fail _) (family.update_keeps leaves)

theorem updateSgiPending_infallible {regNum : Nat} {change : Register32 → Register32} :
    Exec.Infallible (updateSgiPending regNum nodeIndex change :
      Exec IrqError (Distributor numNodes) Register32) :=
  (Exec.Infallible.reads _).bind fun _ => (Exec.Infallible.unwrap _).bind fun _ =>
    (Exec.Infallible.modify _).bind fun _ => .pure _

theorem updateSgiPending_keeps {regNum : Nat} {change : Register32 → Register32}
    (leaves : ∀ dist sgiPending, view { dist with sgiPending } = view dist) :
    Exec.Keeps view (updateSgiPending regNum nodeIndex change) :=
  (Exec.Keeps.reads _).bind fun _ => (Exec.Keeps.unwrap _).bind fun _ =>
    (Exec.Keeps.modify fun dist => leaves dist _).bind fun _ => .pure _

theorem sweepBoth_keeps {baseIrq numIrqs : Nat} :
    Exec.Keeps view (sweepBoth baseIrq numIrqs) :=
  (Exec.Keeps.reads _).bind fun _ => (Exec.Keeps.reads _).bind fun _ => .ite (.pure _) (.pure _)

theorem forwardSgi_keeps {irq : Nat} {cpus : List Nat} (leaves : pendings.Leaves view) :
    Exec.Keeps view (forwardSgi irq cpus) :=
  .foldEach fun _ _ => (Exec.Keeps.orPanic (pendings.updateBit_keeps leaves)).bind fun _ =>
    (Exec.Keeps.reads _).bind fun _ => .pure _

theorem forSgiBytes_keeps {baseIrq : Nat}
    {body : Irq → Register32 → Exec IrqError (Distributor numNodes) Unit}
    (each : ∀ irq mask, Exec.Keeps view (body irq mask)) :
    Exec.Keeps view (forSgiBytes baseIrq body) :=
  (Exec.Keeps.foldEach fun _ _ => (each _ _).bind fun _ => .pure _).bind fun _ => .pure _

theorem writeItargetsr_keeps {regNum : Nat} {change : Register32 → Register32} {named : Register32}
    (leaves : ∀ dist targets, view { dist with targets } = view dist) :
    Exec.Keeps view (writeItargetsr regNum change named) :=
  .ite (.fail _) ((Exec.Keeps.reads _).bind fun _ =>
    (Exec.Keeps.modify fun dist => leaves dist _).bind fun _ => .ite (.pure _) sweepBoth_keeps)

/-- What is not stored in the registers that a write goes to. -/
def Leaves (view : Distributor numNodes → γ) : DistRegWord → Prop
  | .ctlr => ∀ dist control, view { dist with control } = view dist
  | .igroupr _ => group.Leaves view
  | .isenabler _ | .icenabler _ => enables.Leaves view
  | .ispendr _ | .icpendr _ | .sgir => pendings.Leaves view
  | .isactiver _ | .icactiver _ => actives.Leaves view
  | .ipriorityr _ => ∀ dist priority0 priority,
      view { dist with priority0, priority } = view dist
  | .itargetsr _ => ∀ dist targets, view { dist with targets } = view dist
  | .icfgr _ => ∀ dist config1 config, view { dist with config1, config } = view dist
  | .cpendsgir _ | .spendsgir _ => pendings.Leaves view ∧
      ∀ dist sgiPending, view { dist with sgiPending } = view dist
  | _ => True

theorem writeWord_keeps {val : Register32} {reg : DistRegWord} (leaves : Leaves view reg) :
    Exec.Keeps view (writeWord nodeIndex val reg) := by
  cases reg with
  | ctlr =>
      refine .ite ?_ (.ite ?_ (.fail _))
      · exact Exec.Keeps.get.bind fun _ => (Exec.Keeps.modify fun dist => leaves dist _).bind fun _ =>
          .ite sweepBoth_keeps (.pure _)
      · exact (Exec.Keeps.modify fun dist => leaves dist _).bind fun _ => .pure _
  | igroupr => exact (group.update_keeps leaves).bind fun _ => .pure _
  | isenabler => exact .ite (.pure _) ((enables.update_keeps leaves).bind fun _ => sweepBoth_keeps)
  | icenabler => exact .ite (.pure _) ((enables.update_keeps leaves).bind fun _ => .pure _)
  | ispendr =>
      exact .ite (.pure _) (.ite (.pure _) ((pendings.update_keeps leaves).bind fun _ =>
        (Exec.Keeps.reads _).bind fun _ => .pure _))
  | icpendr => exact .ite (.pure _) (.ite (.fail _) ((pendings.update_keeps leaves).bind fun _ => .pure _))
  | isactiver | icactiver => exact .ite (.pure _) ((actives.update_keeps leaves).bind fun _ => .pure _)
  | ipriorityr =>
      refine .ite ?_ ?_
      · exact (Exec.Keeps.reads _).bind fun _ => (Exec.Keeps.unwrap _).bind fun _ =>
          (Exec.Keeps.modify fun dist => leaves dist _ dist.priority).bind fun _ => .pure _
      · exact (Exec.Keeps.reads _).bind fun _ =>
          (Exec.Keeps.modify fun dist => leaves dist dist.priority0 _).bind fun _ => .pure _
  | itargetsr => exact writeItargetsr_keeps leaves
  | icfgr =>
      refine .ite (.pure _) (.ite ?_ ?_)
      · exact (Exec.Keeps.reads _).bind fun _ =>
          (Exec.Keeps.modify fun dist => leaves dist _ dist.config).bind fun _ => .pure _
      · exact (Exec.Keeps.reads _).bind fun _ =>
          (Exec.Keeps.modify fun dist => leaves dist dist.config1 _).bind fun _ => .pure _
  | sgir =>
      refine .ite ?_ (.ite ?_ (.ite ?_ (.pure _)))
      · exact (forwardSgi_keeps leaves).bind fun _ => .pure _
      · exact (Exec.Keeps.assert _).bind fun _ => (forwardSgi_keeps leaves).bind fun _ => .pure _
      · exact (forwardSgi_keeps leaves).bind fun _ => .pure _
  | cpendsgir =>
      exact .ite (.pure _) ((updateSgiPending_keeps leaves.2).bind fun _ =>
        (forSgiBytes_keeps fun _ _ => .ite (.orPanic (pendings.updateBit_keeps leaves.1))
          (.pure _)).bind fun _ => .pure _)
  | spendsgir =>
      exact .ite (.pure _) ((updateSgiPending_keeps leaves.2).bind fun _ =>
        (forSgiBytes_keeps fun _ _ => .ite (.orPanic (pendings.updateBit_keeps leaves.1))
          (.pure _)).bind fun _ => (Exec.Keeps.reads _).bind fun _ => .pure _)
  | iidr | typer | nsacr | icpidr | iccidr => exact .fail _

end Keeps

/-! ## Writes without a sweep -/

/-- The registers that are written without anything to be done about it. -/
def Quiet : DistRegWord → Prop
  | .ctlr | .isenabler _ | .ispendr _ | .itargetsr _ | .sgir | .spendsgir _ => False
  | _ => True

theorem writeWord_noAction {nodeIndex : Nat} {val : Register32} {reg : DistRegWord}
    (quiet : Quiet reg) : Exec.Yields (fun action => action = .noAction)
      (writeWord nodeIndex val reg : Exec IrqError (Distributor numNodes) WriteAction) := by
  cases reg with
  | ctlr | isenabler | ispendr | itargetsr | sgir | spendsgir => exact quiet.elim
  | igroupr => exact .bind fun _ => .pure rfl
  | icenabler | isactiver | icactiver => exact .ite (.pure rfl) (.bind fun _ => .pure rfl)
  | icpendr => exact .ite (.pure rfl) (.ite (.fail _) (.bind fun _ => .pure rfl))
  | ipriorityr =>
      apply Exec.Yields.ite
      · exact .bind fun _ => .bind fun _ => .bind fun _ => .pure rfl
      · exact .bind fun _ => .bind fun _ => .pure rfl
  | icfgr =>
      refine .ite (.pure rfl) (.ite ?_ ?_)
      · exact .bind fun _ => .bind fun _ => .pure rfl
      · exact .bind fun _ => .bind fun _ => .pure rfl
  | cpendsgir => exact .ite (.pure rfl) (.bind fun _ => .bind fun _ => .pure rfl)
  | iidr | typer | nsacr | icpidr | iccidr => exact .fail _

/-! ## Writes that fail -/

section Clean
variable {nodeIndex : Nat}

theorem Family.update_infallible {family : Family numNodes} {regNum : Nat}
    {change : Register32 → Register32} : Exec.Infallible (family.update regNum nodeIndex change) :=
  (Exec.Infallible.reads _).bind fun _ => .modify _

theorem sweepBoth_infallible {baseIrq numIrqs : Nat} :
    Exec.Infallible (sweepBoth baseIrq numIrqs :
      Exec IrqError (Distributor numNodes) WriteAction) :=
  (Exec.Infallible.reads _).bind fun _ => (Exec.Infallible.reads _).bind fun _ =>
    .ite (.pure _) (.pure _)

theorem forwardSgi_infallible {irq : Nat} {cpus : List Nat} :
    Exec.Infallible (forwardSgi irq cpus :
      Exec IrqError (Distributor numNodes) (List (Irq × Cpu))) :=
  .foldEach fun _ _ => (Exec.Infallible.orPanic _).bind fun _ =>
    (Exec.Infallible.reads _).bind fun _ => .pure _

theorem forSgiBytes_infallible {baseIrq : Nat}
    {body : Irq → Register32 → Exec IrqError (Distributor numNodes) Unit}
    (each : ∀ irq mask, Exec.Infallible (body irq mask)) :
    Exec.Infallible (forSgiBytes baseIrq body) :=
  (Exec.Infallible.foldEach fun _ _ => (each _ _).bind fun _ => .pure _).bind fun _ => .pure _

theorem writeItargetsr_failsClean {regNum : Nat} {change : Register32 → Register32}
    {named : Register32} : Exec.FailsClean (writeItargetsr regNum change named :
      Exec IrqError (Distributor numNodes) WriteAction) := by
  apply Exec.FailsClean.ite (.fail _)
  apply Exec.Infallible.failsClean
  exact (Exec.Infallible.reads _).bind fun _ => (Exec.Infallible.modify _).bind fun _ =>
    .ite (.pure _) sweepBoth_infallible

/-- A write that is refused changes nothing. -/
theorem writeWord_failsClean {val : Register32} {reg : DistRegWord} :
    Exec.FailsClean (writeWord nodeIndex val reg :
      Exec IrqError (Distributor numNodes) WriteAction) := by
  cases reg with
  | iidr | typer | nsacr | icpidr | iccidr => exact .fail _
  | ctlr =>
      refine .ite (Exec.Infallible.failsClean ?_) (.ite (Exec.Infallible.failsClean ?_) (.fail _))
      · exact Exec.Infallible.get.bind fun _ => (Exec.Infallible.modify _).bind fun _ =>
          .ite sweepBoth_infallible (.pure _)
      · exact (Exec.Infallible.modify _).bind fun _ => .pure _
  | icpendr =>
      apply Exec.FailsClean.ite (Exec.Infallible.pure _).failsClean
      apply Exec.FailsClean.ite (.fail _)
      exact (Family.update_infallible.bind fun _ => .pure _).failsClean
  | itargetsr => exact writeItargetsr_failsClean
  | igroupr => exact (Family.update_infallible.bind fun _ => .pure _).failsClean
  | isenabler =>
      exact (Exec.Infallible.ite (.pure _)
        (Family.update_infallible.bind fun _ => sweepBoth_infallible)).failsClean
  | icenabler | isactiver | icactiver =>
      exact (Exec.Infallible.ite (.pure _) (Family.update_infallible.bind fun _ => .pure _)).failsClean
  | ispendr =>
      exact (Exec.Infallible.ite (.pure _) (.ite (.pure _) (Family.update_infallible.bind fun _ =>
        (Exec.Infallible.reads _).bind fun _ => .pure _))).failsClean
  | ipriorityr =>
      apply Exec.Infallible.failsClean
      refine .ite ?_ ?_
      · exact (Exec.Infallible.reads _).bind fun _ => (Exec.Infallible.unwrap _).bind fun _ =>
          (Exec.Infallible.modify _).bind fun _ => .pure _
      · exact (Exec.Infallible.reads _).bind fun _ => (Exec.Infallible.modify _).bind fun _ => .pure _
  | icfgr =>
      apply Exec.Infallible.failsClean
      refine .ite (.pure _) (.ite ?_ ?_)
      all_goals
        exact (Exec.Infallible.reads _).bind fun _ => (Exec.Infallible.modify _).bind fun _ => .pure _
  | sgir =>
      apply Exec.Infallible.failsClean
      refine .ite ?_ (.ite ?_ (.ite ?_ (.pure _)))
      · exact forwardSgi_infallible.bind fun _ => .pure _
      · exact (Exec.Infallible.assert _).bind fun _ => forwardSgi_infallible.bind fun _ => .pure _
      · exact forwardSgi_infallible.bind fun _ => .pure _
  | cpendsgir =>
      exact (Exec.Infallible.ite (.pure _) (updateSgiPending_infallible.bind fun _ =>
        (forSgiBytes_infallible fun _ _ => .ite (.orPanic _) (.pure _)).bind fun _ =>
          .pure _)).failsClean
  | spendsgir =>
      exact (Exec.Infallible.ite (.pure _) (updateSgiPending_infallible.bind fun _ =>
        (forSgiBytes_infallible fun _ _ => .ite (.orPanic _) (.pure _)).bind fun _ =>
          (Exec.Infallible.reads _).bind fun _ => .pure _)).failsClean

end Clean

end IceCap.Gic.Distributor
