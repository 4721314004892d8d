import Mathlib.Algebra.Order.Ring.Nat
import Mathlib.Algebra.BigOperators.Group.List.Basic
import Mathlib.Data.List.Infix
import Mathlib.Data.List.Nodup
import Mathlib.Data.List.Perm.Subperm

/-!
# Steps that are paid for

A sequence of steps in which some open an account, which is then worth so much,
and some spend a unit of an account.  A sequence is funded if at no point more
has been spent of an account than was paid in.  As long as no account is opened
twice, what is spent is less than what all accounts are worth together.
-/

set_option autoImplicit false

namespace IceCap.Library

variable {Step Account Item : Type} [DecidableEq Account] {opens spends : Step → Option Account}
  {worth credit other : Account → Nat} {account : Account} {step : Step} {steps later : List Step}

/-- The credit is there from the start. -/
def Funded (opens spends : Step → Option Account) (worth credit : Account → Nat)
    (steps : List Step) : Prop :=
  ∀ done, done <+: steps → ∀ account, (done.filterMap spends).count account ≤
    credit account + (done.filterMap opens).count account * worth account

namespace Funded

theorem nil : Funded opens spends worth credit [] := by
  intro done isDone account
  rw [List.prefix_nil.mp isDone]
  simp

theorem mono (funded : Funded opens spends worth credit steps)
    (more : ∀ account, credit account ≤ other account) :
    Funded opens spends worth other steps := by
  intro done isDone account
  have enough := funded done isDone account
  have extra := more account
  omega

theorem append (funded : Funded opens spends worth credit steps)
    (rest : Funded opens spends worth other later) :
    Funded opens spends worth (fun account => credit account + other account) (steps ++ later) := by
  intro done isDone account
  change _ ≤ credit account + other account + _
  rcases List.prefix_or_prefix_of_prefix isDone (List.prefix_append steps later) with isEarly | isLate
  · have enough := funded done isEarly account
    omega
  · obtain ⟨following, rfl⟩ := isLate
    have first := funded steps (List.prefix_refl _) account
    have second := rest following ((List.prefix_append_right_inj steps).mp isDone) account
    simp only [List.filterMap_append, List.count_append, Nat.add_mul]
    omega

/-- A sequence for each item, paid for together. -/
theorem flatMap {items : List Item} {expand : Item → List Step} {share : Item → Account → Nat}
    (each : ∀ item ∈ items, Funded opens spends worth (share item) (expand item)) :
    Funded opens spends worth (fun account => (items.map fun item => share item account).sum)
      (items.flatMap expand) := by
  induction items with
  | nil => exact .nil
  | cons item items ih =>
      have first := each item List.mem_cons_self
      have rest := ih fun later member => each later (List.mem_cons_of_mem _ member)
      simp only [List.flatMap_cons, List.map_cons, List.sum_cons]
      exact first.append rest

/-- A single step; nothing is spent before it. -/
theorem single (enough : ∀ account, ([step].filterMap spends).count account ≤
    credit account + ([step].filterMap opens).count account * worth account) :
    Funded opens spends worth credit [step] := by
  intro done isDone account
  rcases List.prefix_cons_iff.mp isDone with rfl | ⟨rest, rfl, isRest⟩
  · simp
  · rw [List.prefix_nil.mp isRest]
    exact enough account

theorem spending (isSpent : spends step = some account) :
    Funded opens spends worth (fun owner => if owner = account then 1 else 0) [step] := by
  apply single
  intro owner
  rw [List.filterMap_cons_some isSpent, List.filterMap_nil, List.count_singleton]
  by_cases same : account = owner
  · simp [same]
  · simp [same]

theorem opening (isOpened : opens step = some account) (isFree : spends step = none)
    (funded : Funded opens spends worth (fun owner => if owner = account then worth account else 0)
      steps) : Funded opens spends worth (fun _ => 0) (step :: steps) := by
  intro done isDone owner
  rcases List.prefix_cons_iff.mp isDone with rfl | ⟨rest, rfl, isRest⟩
  · simp
  · have enough := funded rest isRest owner
    rw [List.filterMap_cons_none isFree, List.filterMap_cons_some isOpened, List.count_cons]
    by_cases same : owner = account
    · subst same
      simp only [if_true, beq_self_eq_true, Nat.add_mul] at enough ⊢
      omega
    · simp only [if_neg same, beq_iff_eq, if_neg (Ne.symm same)] at enough ⊢
      omega

theorem cons_neutral (opensNone : opens step = none) (spendsNone : spends step = none)
    (funded : Funded opens spends worth credit steps) :
    Funded opens spends worth credit (step :: steps) := by
  intro done isDone owner
  rcases List.prefix_cons_iff.mp isDone with rfl | ⟨rest, rfl, isRest⟩
  · simp
  · rw [List.filterMap_cons_none opensNone, List.filterMap_cons_none spendsNone]
    exact funded rest isRest owner

theorem flatMap_free {items : List Item} {expand : Item → List Step}
    (each : ∀ item ∈ items, Funded opens spends worth (fun _ => 0) (expand item)) :
    Funded opens spends worth (fun _ => 0) (items.flatMap expand) :=
  (flatMap each).mono fun _ => by simp

/-- Some of the items spend a unit of the account, and the others are paid for. -/
theorem flatMap_some {items : List Item} {expand : Item → List Step} {isSpending : Item → Bool}
    (each : ∀ item ∈ items, Funded opens spends worth
      (fun owner => if owner = account ∧ isSpending item = true then 1 else 0) (expand item)) :
    Funded opens spends worth
      (fun owner => if owner = account then (items.filter isSpending).length else 0)
      (items.flatMap expand) := by
  refine (flatMap each).mono fun owner => Nat.le_of_eq ?_
  induction items with
  | nil => simp
  | cons item items ih =>
      rw [List.map_cons, List.sum_cons, ih fun other member =>
        each other (List.mem_cons_of_mem _ member), List.filter_cons]
      by_cases isOwner : owner = account
      · cases isSpending item with
        | true => simp [isOwner, Nat.add_comm]
        | false => simp [isOwner]
      · simp [isOwner]

end Funded

theorem count_flatMap_replicate {pool : List Account} (distinct : pool.Nodup) (account : Account) :
    (pool.flatMap fun owner => List.replicate (worth owner) owner).count account =
      if account ∈ pool then worth account else 0 := by
  induction pool with
  | nil => rfl
  | cons owner pool ih =>
      obtain ⟨isNew, distinct⟩ := List.nodup_cons.mp distinct
      rw [List.flatMap_cons, List.count_append, ih distinct, List.count_replicate]
      by_cases same : owner = account
      · subst same
        simp [isNew]
      · simp [same, Ne.symm same]

/-- As many as each account is worth are at most as many as all are worth together. -/
theorem length_le_sum {owners pool : List Account} (distinct : pool.Nodup)
    (few : ∀ account, owners.count account ≤ if account ∈ pool then worth account else 0) :
    owners.length ≤ (pool.map worth).sum := by
  have within : owners.Subperm (pool.flatMap fun owner => List.replicate (worth owner) owner) := by
    rw [List.subperm_ext_iff]
    intro account _
    rw [count_flatMap_replicate distinct]
    exact few account
  refine within.length_le.trans (Nat.le_of_eq ?_)
  simp [List.length_flatMap]

/-- Where no account has been opened twice, there is something left for the next step. -/
theorem Funded.spent_lt {done rest : List Step} {pool : List Account}
    (funded : Funded opens spends worth (fun _ => 0) steps) (isNext : steps = done ++ step :: rest)
    (isSpent : spends step = some account) (opensNone : opens step = none)
    (once : (done.filterMap opens).Nodup) (distinct : pool.Nodup)
    (inPool : ∀ owner ∈ done.filterMap opens, owner ∈ pool) :
    (done.filterMap spends).length < (pool.map worth).sum := by
  have isPrefix : done ++ [step] <+: steps := ⟨rest, by rw [isNext, List.append_assoc]; rfl⟩
  have enough : ((done ++ [step]).filterMap spends).length ≤ (pool.map worth).sum := by
    apply length_le_sum distinct
    intro owner
    have few := funded _ isPrefix owner
    have sameOpens : (done ++ [step]).filterMap opens = done.filterMap opens := by
      simp [opensNone]
    rw [sameOpens, Nat.zero_add] at few
    refine few.trans ?_
    by_cases isOpen : owner ∈ done.filterMap opens
    · rw [if_pos (inPool owner isOpen)]
      have atMostOnce := List.nodup_iff_count_le_one.mp once owner
      exact (Nat.mul_le_mul_right _ atMostOnce).trans (Nat.le_of_eq (Nat.one_mul _))
    · rw [List.count_eq_zero_of_not_mem isOpen, Nat.zero_mul]
      exact Nat.zero_le _
  rw [List.filterMap_append, List.filterMap_cons_some isSpent, List.length_append] at enough
  exact enough

end IceCap.Library
