import IceCap.Library.Triple
import IceCap.NineP.WireFormat

/-!
# Paths

A path is the list of its components: the code never looks at more of one.
`joinPath` is the only way in which names of a client come into a path, and what
it makes of a path inside of the root is inside again.
-/

set_option autoImplicit false

namespace IceCap.NineP

open IceCap.Library

/-! ## Errors of the system, as `libc` has them on Linux -/

def eperm : Int := 1
def enoent : Int := 2
def eintr : Int := 4
def eio : Int := 5
def ebadf : Int := 9
def ewouldblock : Int := 11
def eacces : Int := 13
def eexist : Int := 17
def enotdir : Int := 20
def eisdir : Int := 21
def einval : Int := 22
def epipe : Int := 32
def eopnotsupp : Int := 95
def eaddrinuse : Int := 98
def eaddrnotavail : Int := 99
def econnaborted : Int := 103
def econnreset : Int := 104
def enotconn : Int := 107
def etimedout : Int := 110
def econnrefused : Int := 111

/-! ## Components -/

inductive Component where
  | rootDir
  | curDir
  | parentDir
  | normal (name : String)
  deriving DecidableEq, Repr

abbrev Path := List Component

/-- What `Path::components` makes of a part between two separators. -/
def component (part : String) : Option Component :=
  if part = "" ∨ part = "." then none
  else if part = ".." then some .parentDir
  else some (.normal part)

/-- `Path::components`: a `.` is kept in the first place only. -/
def components (path : String) : Path :=
  let parts := (path.toList.splitOn '/').map String.ofList
  if path.toList.head? = some '/' then .rootDir :: parts.filterMap component
  else if parts.head? = some "." then .curDir :: parts.tail.filterMap component
  else parts.filterMap component

/-- `PathBuf::pop` -/
def pop (path : Path) : Path :=
  if path.getLast? = some .rootDir then path else path.dropLast

/-- Joins `path` to `buf`.  If `path` is '..', removes the last component from `buf` only if `buf` is
not `root`.  The assertion is a `debug_assert`. -/
def joinPath {σ : Type} (buf : Path) (path : String) (root : Path) : Exec Error σ Path := do
  Exec.assert (root <+: buf)
  Exec.ensure ((components path).length ≤ 1) (.os einval)
  Exec.foldEach (components path) buf fun buf component =>
    match component with
    | .rootDir => Exec.fail (.os einval)
    | .curDir => Exec.fail (.os einval)
    | .parentDir => pure (if buf ≠ root then pop buf else buf)
    | .normal element => pure (buf ++ [.normal element])

/-- Where a name leads from a place below the root, without a step over the root. -/
def follow (below : Path) (name : String) : Path :=
  match components name with
  | [.normal element] => below ++ [.normal element]
  | [.parentDir] => below.dropLast
  | _ => below

/-! ## Inside of the root -/

/-- A name of a directory entry: it leads one step down and nowhere else. -/
def ProperName (name : String) : Prop :=
  name ≠ "" ∧ name ≠ "." ∧ name ≠ ".." ∧ '/' ∉ name.toList

/-- The path leads from the root down through directory entries. -/
def Inside (root path : Path) : Prop :=
  ∃ names : List String, path = root ++ names.map .normal ∧ ∀ name ∈ names, ProperName name

theorem Inside.root (root : Path) : Inside root root := ⟨[], by simp, by simp⟩

theorem Inside.push {root path : Path} {name : String} (inside : Inside root path)
    (proper : ProperName name) : Inside root (path ++ [.normal name]) := by
  obtain ⟨names, rfl, areProper⟩ := inside
  refine ⟨names ++ [name], by simp, fun other member => ?_⟩
  rcases List.mem_append.mp member with earlier | last
  · exact areProper other earlier
  · rwa [List.mem_singleton.mp last]

theorem Inside.pop {root path : Path} (inside : Inside root path) (isBelow : path ≠ root) :
    Inside root (pop path) := by
  obtain ⟨names, rfl, areProper⟩ := inside
  rcases List.eq_nil_or_concat names with rfl | ⟨names, last, rfl⟩
  · simp at isBelow
  · refine ⟨names, ?_, fun name member => areProper name (by simp [member])⟩
    simp [NineP.pop, ← List.append_assoc]

/-- No part between two separators has a separator in it. -/
theorem not_mem_of_mem_splitOn {separator : Char} {part text : List Char}
    (member : part ∈ text.splitOn separator) : separator ∉ part := by
  have separated : ∀ start : List Char, separator ∉ start →
      part ∈ text.splitOnPPrepend (· == separator) start → separator ∉ part := by
    clear member
    induction text with
    | nil =>
        intro start clean member
        obtain rfl := List.mem_singleton.mp (List.splitOnPPrepend_nil ▸ member)
        simpa using clean
    | cons char text ih =>
        intro start clean member
        rw [List.splitOnPPrepend_cons_eq_if] at member
        split at member
        · rcases List.mem_cons.mp member with rfl | later
          · simpa using clean
          · exact ih [] (by simp) later
        · next differs =>
            have isOther : separator ≠ char := fun same => differs (beq_iff_eq.mpr same.symm)
            exact ih (char :: start) (List.not_mem_cons_of_ne_of_not_mem isOther clean) member
  exact separated [] (by simp) (by rwa [List.splitOn_eq_splitOnP] at member)

theorem proper_of_component {part name : String} (separated : '/' ∉ part.toList)
    (isComponent : component part = some (.normal name)) : ProperName name := by
  unfold component at isComponent
  split at isComponent
  · simp at isComponent
  · split at isComponent
    · simp at isComponent
    · next notEmpty notUp =>
        obtain rfl := Component.normal.inj (Option.some.inj isComponent)
        obtain ⟨notEmpty, notHere⟩ := not_or.mp notEmpty
        exact ⟨notEmpty, notHere, notUp, separated⟩

/-- The normal components of a path are names of directory entries. -/
theorem proper_of_components {path name : String} (member : .normal name ∈ components path) :
    ProperName name := by
  have proper : ∀ parts : List String,
      (∀ part ∈ parts, part ∈ (path.toList.splitOn '/').map String.ofList) →
      .normal name ∈ parts.filterMap component → ProperName name := by
    intro parts areParts member
    obtain ⟨part, isPart, isComponent⟩ := List.mem_filterMap.mp member
    obtain ⟨text, isText, rfl⟩ := List.mem_map.mp (areParts part isPart)
    refine proper_of_component ?_ isComponent
    rw [String.toList_ofList]
    exact not_mem_of_mem_splitOn isText
  unfold components at member
  dsimp only at member
  split at member
  · exact proper _ (fun _ isPart => isPart) (by simpa using member)
  · split at member
    · exact proper _ (fun _ isPart => List.mem_of_mem_tail isPart) (by simpa using member)
    · exact proper _ (fun _ isPart => isPart) member

theorem Inside.pop_eq {root below : Path} (inside : Inside root (root ++ below)) :
    (if root ++ below ≠ root then NineP.pop (root ++ below) else root ++ below) =
      root ++ below.dropLast := by
  obtain ⟨names, isBelow, _⟩ := inside
  obtain rfl := List.append_cancel_left isBelow
  rcases List.eq_nil_or_concat names with rfl | ⟨names, last, rfl⟩
  · simp
  · rw [List.concat_eq_append, if_pos (by simp)]
    simp [NineP.pop, ← List.append_assoc]

/-- The assertion holds, and the path that is returned is inside of the root. -/
theorem joinPath_inside {σ : Type} {root below : Path} {path : String} {pre : σ → Prop}
    (inside : Inside root (root ++ below)) :
    Exec.Triple pre (joinPath (root ++ below) path root)
      (fun joined state => (joined = root ++ follow below path ∧ Inside root joined) ∧ pre state)
      fun _ => pre := by
  refine .bind (.assert fun _ _ => List.prefix_append ..) fun _ => .of_fact fun _ => ?_
  refine .bind (.ensure fun _ holds _ => holds) fun _ => .of_fact fun single => ?_
  cases parts : components path with
  | nil => exact .pure fun _ holds => ⟨⟨by rw [follow, parts], inside⟩, holds⟩
  | cons first rest =>
      obtain rfl : rest = [] := by
        rw [parts] at single
        exact List.length_eq_zero_iff.mp (Nat.le_zero.mp (Nat.le_of_succ_le_succ single))
      refine .through (fun joined state =>
        (joined = root ++ follow below path ∧ Inside root joined) ∧ pre state) ?_ fun _ =>
        .pure fun _ holds => holds
      cases first with
      | rootDir => exact .fail fun _ holds => holds
      | curDir => exact .fail fun _ holds => holds
      | parentDir =>
          refine .pure fun _ holds => ⟨⟨?_, ?_⟩, holds⟩
          · rw [follow, parts, inside.pop_eq]
          · split
            · exact inside.pop ‹_›
            · exact inside
      | normal name =>
          have proper := proper_of_components (show .normal name ∈ components path by simp [parts])
          refine .pure fun _ holds => ⟨⟨?_, inside.push proper⟩, holds⟩
          rw [follow, parts, List.append_assoc]

end IceCap.NineP
