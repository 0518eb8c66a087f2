import Mathlib.Data.List.Pairwise

namespace Foundation

open List

/-!
# Changing the first matching entry of a list

A list searched from its head, as linked lists are: the first entry that
satisfies a test is replaced, or taken out.
-/

variable {α : Type}

/-- Replace the first entry that satisfies the test, or take it out. -/
def modifyFirst (test : α -> Bool) (change : α -> Option α) : List α -> List α
  | [] => []
  | entry :: rest =>
    if test entry then (change entry).toList ++ rest
    else entry :: modifyFirst test change rest

section

variable {test : α -> Bool} {change : α -> Option α}

variable {list : List α}

theorem mem_modifyFirst {entry : α} (mem : entry ∈ modifyFirst test change list) :
    entry ∈ list \/ ∃ old, list.find? test = some old /\ change old = some entry := by
  induction list with
  | nil => exact Or.inl mem
  | cons head rest ih =>
    by_cases here : test head
    · rw [modifyFirst, if_pos here, mem_append, Option.mem_toList] at mem
      rcases mem with changed | later
      · exact Or.inr ⟨head, List.find?_cons_of_pos here, changed⟩
      · exact Or.inl (mem_cons_of_mem _ later)
    · rw [modifyFirst, if_neg here, mem_cons] at mem
      rcases mem with same | later
      · exact Or.inl (same ▸ mem_cons_self)
      · rcases ih later with before | ⟨old, found, changed⟩
        · exact Or.inl (mem_cons_of_mem _ before)
        · exact Or.inr ⟨old, by rw [List.find?_cons_of_neg here]; exact found, changed⟩

theorem pairwise_modifyFirst {R : α -> α -> Prop} (keeps : ∀ old new, change old = some new ->
      ∀ other, (R old other -> R new other) /\ (R other old -> R other new))
    (pairwise : list.Pairwise R) : (modifyFirst test change list).Pairwise R := by
  induction pairwise with
  | nil => exact List.Pairwise.nil
  | @cons head rest related tailPairwise ih =>
    by_cases here : test head
    · rw [modifyFirst, if_pos here]
      cases changed : change head with
      | none => exact tailPairwise
      | some new =>
        exact List.Pairwise.cons
          (fun other mem => (keeps head new changed other).1 (related other mem))
          tailPairwise
    · rw [modifyFirst, if_neg here]
      refine List.Pairwise.cons (fun other mem => ?_) ih
      rcases mem_modifyFirst mem with before | ⟨old, found, changed⟩
      · exact related other before
      · exact (keeps old other changed head).2 (related old (List.mem_of_find?_eq_some found))

theorem modifyFirst_eq_self_iff : modifyFirst test change list = list <->
      ∀ old, list.find? test = some old -> change old = some old := by
  induction list with
  | nil => exact iff_of_true rfl fun old found => absurd found (by simp)
  | cons head rest ih =>
    by_cases here : test head
    · rw [modifyFirst, if_pos here, List.find?_cons_of_pos here]
      constructor
      · rintro same old ⟨⟩
        cases changed : change head with
        | none =>
          rw [changed] at same
          exact absurd (congrArg List.length same) (by simp)
        | some new =>
          rw [changed] at same
          exact congrArg some (List.cons.inj same).1
      · intro all
        rw [all head rfl]
        rfl
    · rw [modifyFirst, if_neg here, List.find?_cons_of_neg here, <- ih]
      exact ⟨fun same => (List.cons.inj same).2, fun same => congrArg (head :: ·) same⟩

theorem filter_not_modifyFirst (keeps : ∀ old new, change old = some new -> test new = test old)
    (list : List α) :
    (modifyFirst test change list).filter (fun entry => !test entry) =
      list.filter fun entry => !test entry := by
  induction list with
  | nil => rfl
  | cons head rest ih =>
    by_cases here : test head
    · rw [modifyFirst, if_pos here, filter_append, filter_cons_of_neg (by simp [here])]
      cases changed : change head with
      | none => rfl
      | some new =>
        have gone : ([new] : List α).filter (fun entry => !test entry) = [] := by
          rw [filter_cons_of_neg (by simp [keeps head new changed, here])]
          rfl
        rw [Option.toList_some, gone, nil_append]
    · rw [modifyFirst, if_neg here, filter_cons_of_pos (by simpa using here),
        filter_cons_of_pos (by simpa using here), ih]

/-- Where at most one entry matches, it is the one that changes. -/
theorem filter_modifyFirst (keeps : ∀ old new, change old = some new -> test new = test old)
    (alone : list.Pairwise fun one two => ¬ (test one /\ test two)) :
    (modifyFirst test change list).filter test =
      (list.filter test).flatMap fun old => (change old).toList := by
  induction list with
  | nil => rfl
  | cons head rest ih =>
    rcases pairwise_cons.mp alone with ⟨single, restAlone⟩
    by_cases here : test head
    · have none := filter_eq_nil_iff.mpr fun entry mem there => single entry mem ⟨here,
        there⟩
      rw [modifyFirst, if_pos here, filter_append, none, append_nil,
        filter_cons_of_pos here, none, flatMap_singleton]
      cases changed : change head with
      | none => rfl
      | some new =>
        rw [Option.toList_some, filter_cons_of_pos (by rw [keeps head new changed, here])]
        rfl
    · rw [modifyFirst, if_neg here, filter_cons_of_neg here, filter_cons_of_neg here,
        ih restAlone]

end

end Foundation
