import Mathlib.Data.List.Infix

/-!
# Frames in a stream

Items one after another in a stream, each behind a header that tells its
length.  A reader that stands between two frames and sees anything more than the
frames before it stands before the next frame.
-/

set_option autoImplicit false

namespace IceCap.Library

variable {α : Type} (header : Nat → List α)

def frame (item : List α) : List α := header item.length ++ item

def frames (items : List (List α)) : List α := items.flatMap (frame header)

variable {header} {first second all : List (List α)} {item rest : List α}

@[simp]
theorem frames_nil : frames header [] = [] := rfl

@[simp]
theorem frames_append : frames header (first ++ second) = frames header first ++ frames header second :=
  List.flatMap_append

@[simp]
theorem frames_singleton : frames header [item] = header item.length ++ item := by
  simp [frames, frame]

theorem frames_length_le (isPrefix : first <+: second) :
    (frames header first).length ≤ (frames header second).length := by
  obtain ⟨more, rfl⟩ := isPrefix
  rw [frames_append, List.length_append]
  exact Nat.le_add_right _ _

/-- Of two places between frames, the later one has a frame before it that the other has not. -/
theorem next_of_length_lt (isFirst : first <+: all) (isSecond : second <+: all)
    (less : (frames header first).length < (frames header second).length) :
    ∃ item, first ++ [item] <+: second := by
  rcases List.prefix_or_prefix_of_prefix isFirst isSecond with shorter | longer
  · obtain ⟨more, rfl⟩ := shorter
    cases more with
    | nil => simp at less
    | cons item more => exact ⟨item, more, by simp⟩
  · exact absurd (frames_length_le longer) (Nat.not_le.mpr less)

/-- What comes next in the stream. -/
theorem frames_drop (isNext : first ++ [item] <+: all) :
    header item.length ++ item <+: (frames header all ++ rest).drop (frames header first).length := by
  obtain ⟨more, rfl⟩ := isNext
  rw [frames_append, frames_append, frames_singleton, List.append_assoc, List.append_assoc,
    List.drop_left]
  exact List.prefix_append _ _

end IceCap.Library
