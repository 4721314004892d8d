import Mathlib.Data.List.Basic
import Mathlib.Data.List.Nodup
import Mathlib.Data.List.Perm.Basic
import Std.Data.TreeMap.Lemmas

/-!
# What the entries of a map hold

Every entry of a finite map holds some resources.  `held` lists the resources
of all entries; inserting under a new key adds those of the new entry, and
erasing a key takes away those of its entry.
-/

set_option autoImplicit false

namespace IceCap.Library

variable {Key Value Resource : Type} {cmp : Key → Key → Ordering}
  {holding : Value → List Resource} {entries changed : Std.TreeMap Key Value cmp} {key : Key}
  {value : Value}

def held (holding : Value → List Resource) (entries : Std.TreeMap Key Value cmp) : List Resource :=
  entries.toList.flatMap fun entry => holding entry.2

variable [Std.TransCmp cmp] [Std.LawfulEqCmp cmp]

theorem toList_nodup (entries : Std.TreeMap Key Value cmp) : entries.toList.Nodup := by
  apply Std.TreeMap.distinct_keys_toList.imp
  intro first second apart same
  exact apart (same ▸ Std.ReflCmp.compare_self)

theorem mem_held {resource : Resource} :
    resource ∈ held holding entries ↔
      ∃ (key : Key) (value : Value), entries[key]? = some value ∧ resource ∈ holding value := by
  simp only [held, List.mem_flatMap, Prod.exists, Std.TreeMap.mem_toList_iff_getElem?_eq_some]

theorem toList_insert (isNew : entries[key]? = none) :
    (entries.insert key value).toList.Perm ((key, value) :: entries.toList) := by
  have fresh : (key, value) ∉ entries.toList := by
    simp [Std.TreeMap.mem_toList_iff_getElem?_eq_some, isNew]
  rw [List.perm_ext_iff_of_nodup (toList_nodup _) (List.nodup_cons.mpr ⟨fresh, toList_nodup _⟩)]
  intro ⟨other, found⟩
  simp only [Std.TreeMap.mem_toList_iff_getElem?_eq_some, List.mem_cons, Prod.mk.injEq,
    Std.TreeMap.getElem?_insert, Std.LawfulEqCmp.compare_eq_iff_eq]
  by_cases same : key = other
  · subst same
    simp [isNew, Std.ReflCmp.compare_self, eq_comm]
  · simp [same, Ne.symm same]

theorem held_insert (isNew : entries[key]? = none) :
    (held holding (entries.insert key value)).Perm (holding value ++ held holding entries) :=
  (toList_insert isNew).flatMap_right _

/-- A map with an entry is the rest of it with that entry inserted. -/
theorem held_erase (isEntry : entries[key]? = some value) :
    (held holding entries).Perm (holding value ++ held holding (entries.erase key)) := by
  have isNew : (entries.erase key)[key]? = none := by simp
  refine List.Perm.trans (List.Perm.flatMap_right _ ?_) (held_insert isNew)
  rw [List.perm_ext_iff_of_nodup (toList_nodup _) (toList_nodup _)]
  intro ⟨other, found⟩
  simp only [Std.TreeMap.mem_toList_iff_getElem?_eq_some, Std.TreeMap.getElem?_insert,
    Std.TreeMap.getElem?_erase, Std.LawfulEqCmp.compare_eq_iff_eq]
  by_cases same : key = other
  · subst same
    simp [isEntry]
  · simp [same]

/-- Entries may change otherwise, as long as they hold the same. -/
theorem held_congr (same : ∀ key : Key, (changed[key]?).map holding = (entries[key]?).map holding) :
    (held holding changed).Perm (held holding entries) := by
  have maps : (changed.map fun _ => holding).toList.Perm (entries.map fun _ => holding).toList := by
    rw [List.perm_ext_iff_of_nodup (toList_nodup _) (toList_nodup _)]
    intro ⟨key, found⟩
    simp only [Std.TreeMap.mem_toList_iff_getElem?_eq_some, Std.TreeMap.getElem?_map, same]
  have lists := maps.flatMap_right Prod.snd
  simpa only [held, Std.TreeMap.toList_map, List.flatMap_map] using lists

/-- What is inserted may take the place of another entry. -/
theorem held_replace : (holding value ++ held holding entries).Perm
    ((entries[key]?).elim [] holding ++ held holding (entries.insert key value)) := by
  cases isEntry : entries[key]? with
  | none => exact (held_insert isEntry).symm
  | some old =>
      have same : (held holding (entries.insert key value)).Perm
          (held holding ((entries.erase key).insert key value)) := by
        refine held_congr fun other => congrArg _ ?_
        simp only [Std.TreeMap.getElem?_insert, Std.TreeMap.getElem?_erase]
        split <;> simp_all
      have isNew : (entries.erase key)[key]? = none := by simp
      calc holding value ++ held holding entries
        _ |>.Perm (holding value ++ (holding old ++ held holding (entries.erase key))) :=
          (held_erase isEntry).append_left _
        _ |>.Perm (holding old ++ (holding value ++ held holding (entries.erase key))) := by
          rw [← List.append_assoc, ← List.append_assoc]
          exact List.perm_append_comm.append_right _
        _ |>.Perm (holding old ++ held holding (entries.insert key value)) :=
          ((held_insert isNew).symm.trans same.symm).append_left _

end IceCap.Library
