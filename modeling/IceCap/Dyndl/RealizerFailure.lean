import IceCap.Dyndl.AllocatorFailure
import IceCap.Dyndl.Paths
import IceCap.Dyndl.RealizerSpace

/-!
# Realms that cannot be started

`realize_start` returns an error without giving back what it has created.  The
untyped of the CNode and the slots of the allocator that were taken for it are in
use from then on, though no realm has them; everything else is as it was.
-/

set_option autoImplicit false

namespace IceCap.Dyndl

open IceCap.Library IceCap.Sel4

variable {K : Type} {base : CRegion} {built : Node} {live : List UntypedId} {reserved : List Slot}

namespace Allocator

variable {sizes : Sizes} {kernel : Kernel K}

theorem createObjects_infallible (blueprints : List ObjectBlueprint) :
    ∀ {realmCRegion : CRegion},
      Exec.Infallible (createObjects sizes kernel blueprints realmCRegion) := by
  induction blueprints with
  | nil =>
      intro realmCRegion
      exact .pure _
  | cons blueprint blueprints ih =>
      intro realmCRegion
      exact .bind (.unwrap _) fun _ => .bind (.unwrap _) fun _ =>
        .bind createObject_infallible fun _ => .bind ih fun _ => .pure _

end Allocator

namespace Realizer

variable {platform : Platform K} {state final : Realizer K} {model : Model}

/-- What a realm that cannot be started has taken is lost. -/
theorem realizeStart_err {error : Failure} (sound : Sound base built live reserved state.machine)
    (failed : realizeStart platform model state = .err error final) :
    ∃ ids slots, Sound base built (ids ++ live) (slots ++ reserved) final.machine := by
  rw [realizeStart_eq] at failed
  rcases Exec.bind_eq_err.mp failed with refused | ⟨blueprints, middle, admitted, creates⟩
  · obtain rfl : final = state := admission_keeps _ _ (.inr ⟨error, refused⟩)
    exact ⟨[], [], sound⟩
  · obtain rfl : middle = state := admission_keeps.keeps _ _ _ admitted
    rcases Exec.bind_eq_err.mp creates with cnodeFails | ⟨cnode, created, _, createsObjects⟩
    · obtain ⟨machine, inner, rfl⟩ := Exec.focus_eq_err.mp cnodeFails
      obtain ⟨untypedId, realmSlot, tempSlot, kept⟩ := Allocator.createCnode_err sound inner
      exact ⟨[untypedId], [tempSlot, realmSlot], kept⟩
    · -- The objects are created under `unwrap()`.
      have rest : Exec.Infallible (onMachine (Allocator.createObjects platform.sizes
          platform.kernel blueprints cnode.1) >>= fun objects => (pure (⟨model,
          ModelView.new platform.sizes model, objects.1, cnode.2.1, objects.2.1, objects.2.2⟩ :
            PartialSubsystem) : Exec Failure (Realizer K) PartialSubsystem)) :=
        .bind (.focus (Allocator.createObjects_infallible _)) fun _ => .pure _
      exact absurd createsObjects (rest _ _ _)

theorem realizeStart_place :
    Exec.Spares (fun state => Allocator.place state.machine) (realizeStart platform model) :=
  .bind (blueprints_keeps.comp fun state => Allocator.place state.machine) fun _ =>
    .bind (counts_keeps.comp fun state => Allocator.place state.machine) fun _ =>
    .bind .get fun _ => .bind (.ensure _ _) fun _ =>
    .bind (Allocator.createCnode_place.inside fun _ _ => rfl) fun _ =>
    .bind ((Allocator.createObjects_place _).inside fun _ _ => rfl) fun _ => .pure _

end Realizer

end IceCap.Dyndl
