import IceCap.Dyndl.Paths
import IceCap.Library.Patches

/-!
# Filling frames

A fill entry of a frame has the digest of its content, and `realize_continue`
takes no other content for it.  It writes what it was given first, and as much of
it as there is; the length of the entry it does not look at.
-/

set_option autoImplicit false

namespace IceCap.Dyndl

open IceCap.Library IceCap.Sel4

def Obj.fill : Obj → Option Fill
  | .smallPage fill => some fill
  | .largePage fill => some fill
  | _ => none

namespace Model

variable {model : Model} {i : ObjId} {fill : Fill}

/-- The fill entries of an object, if it is a frame of the realm's own. -/
def fillAt (model : Model) (i : ObjId) : Option Fill :=
  match (model.objects[i]?).map TopObj.object with
  | some (.localObj obj) => obj.fill
  | _ => none

theorem isLocal_of_fillAt (isFill : model.fillAt i = some fill) : model.IsLocal i := by
  unfold fillAt at isFill
  split at isFill
  · next obj isObject => exact ⟨obj, isObject⟩
  · simp at isFill

end Model

namespace Realizer

variable {K : Type} {platform : Platform K} {resources : SubsystemObjectInitializationResources}
  {state final : Realizer K} {subsystem : PartialSubsystem}

/-! ## What is written -/

theorem writeFrame_self {frames : Frames} {frame : CPtr} {offset : Nat} {content : List UInt8} :
    writeFrame frames frame offset content frame =
      Patch.apply ⟨offset, content⟩ (frames frame) := by
  funext address
  simp only [writeFrame, Function.update_self, Patch.apply, Patch.item]
  split <;> rfl

theorem writeFrame_other {frames : Frames} {frame other : CPtr} {offset : Nat}
    {content : List UInt8} (differs : other ≠ frame) :
    writeFrame frames frame offset content other = frames other := by
  rw [writeFrame, Function.update_of_ne differs]

theorem onKernel_frames {invocation : Invocation} :
    Exec.Spares Realizer.frames (onKernel (K := K) platform invocation) := .focus fun _ _ => rfl

theorem fillFrame_eq_ok {vaddr : UInt64} {sizeBits : Nat} {frame : CPtr} {offset : Nat}
    {expected content : List UInt8}
    (run : fillFrame platform resources vaddr sizeBits frame offset expected content state =
      .ok () final) :
    platform.sha256 content = expected ∧
      final.frames = writeFrame state.frames frame offset content := by
  simp only [fillFrame, Exec.bind_eq_ok, Exec.assert_eq_ok, Exec.modify_eq_ok,
    Exec.ensure_eq_ok] at run
  obtain ⟨⟨⟩, mapped, mapRun, ⟨⟩, _, ⟨_, rfl⟩, ⟨⟩, _, rfl, ⟨⟩, _, ⟨digest, rfl⟩, unmapRun⟩ := run
  refine ⟨digest, ?_⟩
  rw [onKernel_frames.keeps _ _ _ unmapRun, onKernel_frames.keeps _ _ _ mapRun]

/-- The content is written before its digest is compared, so what is refused may be there, too. -/
theorem fillFrame_err {vaddr : UInt64} {sizeBits : Nat} {frame : CPtr} {offset : Nat}
    {expected content : List UInt8} {error : Failure}
    (failed : fillFrame platform resources vaddr sizeBits frame offset expected content state =
      .err error final) :
    final.frames = state.frames ∨ final.frames = writeFrame state.frames frame offset content := by
  rcases Exec.bind_eq_err.mp failed with mapFails | ⟨⟨⟩, mapped, mapRun, failed⟩
  · exact .inl (onKernel_frames _ _ (.inr ⟨error, mapFails⟩))
  · obtain ⟨⟨⟩, _, isInside, failed⟩ := (Exec.Infallible.assert _).fails_later failed
    obtain ⟨_, rfl⟩ := Exec.assert_eq_ok.mp isInside
    obtain ⟨⟨⟩, _, isWritten, failed⟩ := (Exec.Infallible.modify _).fails_later failed
    obtain rfl := Exec.modify_eq_ok.mp isWritten
    have rest : Exec.Spares Realizer.frames (Exec.ensure (platform.sha256 content = expected)
        (.message "digest.as_slice() == expected_content_digest") >>= fun _ =>
          onKernel platform (.frameUnmap frame)) := .bind (.ensure _ _) fun _ => onKernel_frames
    right
    rw [rest _ _ (.inr ⟨error, failed⟩), onKernel_frames.keeps _ _ _ mapRun]

/-- What does not panic fills the frame of an entry. -/
theorem realizeContinue_eq {objId : ObjId} {index : Nat} {content : List UInt8}
    (ends : Exec.Ends (realizeContinue platform resources subsystem objId index content) state
      final) :
    ∃ fill entry frame vaddr sizeBits, subsystem.model.fillAt objId = some fill ∧
      fill[index]? = some entry ∧ subsystem.frame objId = some frame ∧
      realizeContinue platform resources subsystem objId index content state =
        fillFrame platform resources vaddr sizeBits frame entry.offset entry.contentDigest content
          state := by
  unfold realizeContinue at ends ⊢
  obtain ⟨object, isObject, same⟩ := ends.of_unwrap
  rw [same]
  rw [Exec.ends_congr same] at ends
  cases isKind : object.object with
  | externObj _ =>
      simp only [isKind] at ends
      exact absurd rfl ends.ne_panic
  | localObj obj =>
      simp only [isKind] at ends ⊢
      obtain ⟨position, isPosition, same⟩ := ends.of_unwrap
      rw [same]
      rw [Exec.ends_congr same] at ends
      obtain ⟨slot, isSlot, same⟩ := ends.of_unwrap
      rw [same]
      rw [Exec.ends_congr same] at ends
      have isFill : subsystem.model.fillAt objId = obj.fill := by
        rw [Model.fillAt, isObject, Option.map_some, isKind]
      cases obj with
      | smallPage fill =>
          obtain ⟨frame, isFrame, same⟩ := ends.of_unwrap
          simp only at ends ⊢
          rw [same]
          rw [Exec.ends_congr same] at ends
          obtain ⟨entry, isEntry, same⟩ := ends.of_unwrap
          exact ⟨fill, entry, frame, _, _, isFill, isEntry, PartialSubsystem.frame_eq_some.mpr
            ⟨position, slot, isPosition, isSlot, isFrame⟩, same⟩
      | largePage fill =>
          obtain ⟨frame, isFrame, same⟩ := ends.of_unwrap
          simp only at ends ⊢
          rw [same]
          rw [Exec.ends_congr same] at ends
          obtain ⟨entry, isEntry, same⟩ := ends.of_unwrap
          exact ⟨fill, entry, frame, _, _, isFill, isEntry, PartialSubsystem.frame_eq_some.mpr
            ⟨position, slot, isPosition, isSlot, isFrame⟩, same⟩
      | _ => exact absurd rfl ends.ne_panic

/-- The content has the digest of the entry, and is in the frame now. -/
theorem realizeContinue_eq_ok {objId : ObjId} {index : Nat} {content : List UInt8}
    (run : realizeContinue platform resources subsystem objId index content state = .ok () final) :
    ∃ fill entry frame, subsystem.model.fillAt objId = some fill ∧ fill[index]? = some entry ∧
      subsystem.frame objId = some frame ∧ platform.sha256 content = entry.contentDigest ∧
      final.frames = writeFrame state.frames frame entry.offset content := by
  obtain ⟨fill, entry, frame, vaddr, sizeBits, isFill, isEntry, isFrame, same⟩ :=
    realizeContinue_eq (.inl ⟨(), run⟩)
  exact ⟨fill, entry, frame, isFill, isEntry, isFrame, fillFrame_eq_ok (same.symm.trans run)⟩

/-- Content that is refused is in the frame now, or nothing is. -/
theorem realizeContinue_err {objId : ObjId} {index : Nat} {content : List UInt8} {error : Failure}
    (failed : realizeContinue platform resources subsystem objId index content state =
      .err error final) :
    ∃ fill entry frame, subsystem.model.fillAt objId = some fill ∧ fill[index]? = some entry ∧
      subsystem.frame objId = some frame ∧ (final.frames = state.frames ∨
        final.frames = writeFrame state.frames frame entry.offset content) := by
  obtain ⟨fill, entry, frame, vaddr, sizeBits, isFill, isEntry, isFrame, same⟩ :=
    realizeContinue_eq (.inr ⟨error, failed⟩)
  exact ⟨fill, entry, frame, isFill, isEntry, isFrame, fillFrame_err (same.symm.trans failed)⟩

/-! ## What leaves the frames alone -/

theorem realizeStart_frames {model : Model} :
    Exec.Spares Realizer.frames (realizeStart (K := K) platform model) :=
  .bind (blueprints_keeps.comp Realizer.frames) fun _ =>
    .bind (counts_keeps.comp Realizer.frames) fun _ => .bind .get fun _ =>
    .bind (.ensure _ _) fun _ => .bind (.focus fun _ _ => rfl) fun _ =>
    .bind (.focus fun _ _ => rfl) fun _ => .pure _

theorem takeExtern_frames {model : Model} {taken : Externs × List CPtr} {i : Nat} :
    Exec.Spares (Realizer.frames (K := K)) (takeExtern model taken i) := by
  refine .bind (.unwrap _) fun object => ?_
  cases object.object with
  | localObj _ => exact .panic
  | externObj obj =>
      exact .bind .get fun _ => .bind (.unwrap _) fun _ => .bind (.modify fun _ => rfl) fun _ =>
        .bind (.assert _) fun _ => .pure _

theorem initializeObjects_frames {model : Model} {caps : List CPtr} {cregion : CRegion} :
    Exec.Spares Realizer.frames (initializeObjects platform resources model caps cregion) := by
  intro before after run
  obtain ⟨kernel, rfl⟩ := initializeObjects_ends run
  rfl

theorem realizeFinish_frames :
    Exec.Spares Realizer.frames (realizeFinish platform resources subsystem) :=
  .bind (.foldEach fun _ _ => takeExtern_frames) fun _ =>
    .bind (.mapEach fun _ => .unwrap _) fun _ => .bind initializeObjects_frames fun _ => .pure _

/-- A realm is finished only if all of its objects have capabilities. -/
theorem realizeFinish_frame {finished : Subsystem} {i : ObjId}
    (run : realizeFinish platform resources subsystem state = .ok finished final)
    (isLocal : subsystem.model.IsLocal i) : ∃ frame, subsystem.frame i = some frame := by
  obtain ⟨obj, isObject⟩ := isLocal
  simp only [realizeFinish, Exec.bind_eq_ok] at run
  obtain ⟨taken, middle, _, caps, _, capsRun, _⟩ := run
  have member : (.localObj obj, i) ∈ (subsystem.model.objects.map TopObj.object).zipIdx :=
    List.mk_mem_zipIdx_iff_getElem?.mpr (by rw [List.getElem?_map, isObject])
  obtain ⟨index, isIndex⟩ := List.mem_iff_getElem?.mp member
  have found := getElem?_of_mapM (mapEach_unwrap.mp capsRun).1 index
  have inside : index < caps.length := by
    rw [length_of_mapM (mapEach_unwrap.mp capsRun).1]
    exact (List.getElem?_eq_some_iff.mp isIndex).1
  rw [isIndex, Option.bind_some, List.getElem?_eq_getElem inside] at found
  exact ⟨_, found.symm⟩

theorem revokeAndFree_frames {untypedId : UntypedId} :
    Exec.Spares Realizer.frames
      (onMachine (Allocator.revokeAndFree platform.kernel untypedId)) := .focus fun _ _ => rfl

theorem destroy_frames {destroyed : Subsystem} :
    Exec.Spares Realizer.frames (destroy platform destroyed) :=
  .bind revokeAndFree_frames fun _ => .bind (.forEach fun _ => revokeAndFree_frames) fun _ =>
    .modify fun _ => rfl

end Realizer

end IceCap.Dyndl
