import Mathlib.Data.List.Basic

namespace Foundation

open List

/-!
# Parts with separators

A text as a sequence of parts between separators, the other way round from
`List.splitOn`.
-/

variable {α : Type}

def separated (sep : α) (parts : List (List α)) : List α :=
  parts.flatMap (sep :: ·)

variable {sep : α} {part : List α} {parts : List (List α)}

@[simp]
theorem separated_nil : separated sep ([] : List (List α)) = [] := rfl

@[simp]
theorem separated_cons :
    separated sep (part :: parts) = sep :: part ++ separated sep parts := rfl

theorem separated_append (others : List (List α)) : separated sep (parts ++ others) =
      separated sep parts ++ separated sep others :=
  flatMap_append

theorem append_separated_eq_intercalate :
    part ++ separated sep parts = [sep].intercalate (part :: parts) := by
  induction parts generalizing part with
  | nil => simp
  | cons next parts ih =>
    rw [intercalate_cons_cons, <- ih]
    simp

/-- Pieces without separators are found again in front of anything that is empty
or begins with one. -/
theorem append_inj_of_free {first second front back : List α} (firstFree : sep ∉ first)
    (secondFree : sep ∉ second) (frontStarts : front = [] \/ front.head? = some sep)
    (backStarts : back = [] \/ back.head? = some sep)
    (equal : first ++ front = second ++ back) : first = second /\ front = back := by
  induction first generalizing second with
  | nil =>
    cases second with
    | nil => exact ⟨rfl, equal⟩
    | cons c second =>
      subst equal
      rcases frontStarts with absurd | head
      · cases absurd
      · exact (secondFree (Option.some.inj head ▸ mem_cons_self)).elim
  | cons c first ih =>
    cases second with
    | nil =>
      subst equal
      rcases backStarts with absurd | head
      · cases absurd
      · exact (firstFree (Option.some.inj head ▸ mem_cons_self)).elim
    | cons d second =>
      obtain ⟨same, rest⟩ := List.cons.inj equal
      obtain ⟨tails, others⟩ := ih (fun mem => firstFree (mem_cons_of_mem _ mem))
        (fun mem => secondFree (mem_cons_of_mem _ mem)) rest
      exact ⟨by rw [same, tails], others⟩

theorem separated_starts (parts : List (List α)) :
    separated sep parts = [] \/ (separated sep parts).head? = some sep := by
  cases parts with
  | nil => exact Or.inl rfl
  | cons part parts => exact Or.inr rfl

theorem separated_prefix_iff {words : List (List α)} (free : ∀ piece ∈ parts, sep ∉ piece)
    (wordsFree : ∀ piece ∈ words, sep ∉ piece) :
    (∃ after, separated sep parts = separated sep words ++ after /\
      (after = [] \/ after.head? = some sep)) <-> words <+: parts := by
  constructor
  · rintro ⟨after, equal, starts⟩
    induction words generalizing parts with
    | nil => exact nil_prefix
    | cons word words ih =>
      cases parts with
      | nil => cases equal
      | cons part parts =>
        rw [separated_cons, separated_cons, cons_append, cons_append,
          cons_append, append_assoc] at equal
        have restStarts : separated sep words ++ after = [] \/
            (separated sep words ++ after).head? = some sep := by
          cases words with
          | nil => exact starts
          | cons next words => exact Or.inr rfl
        obtain ⟨same, rest⟩ := append_inj_of_free (free part mem_cons_self)
          (wordsFree word mem_cons_self) (separated_starts parts) restStarts
          (List.cons.inj equal).2
        rw [same]
        refine prefix_cons_inj _ |>.mpr (ih ?_ ?_ rest)
        · exact fun piece mem => free piece (mem_cons_of_mem _ mem)
        · exact fun piece mem => wordsFree piece (mem_cons_of_mem _ mem)
  · rintro ⟨others, rfl⟩
    exact ⟨separated sep others, separated_append others, separated_starts others⟩

variable [BEq α] [LawfulBEq α]

/-- Parts that do not contain the separator are found again. -/
theorem splitOn_append_separated (free : ∀ piece ∈ part :: parts, sep ∉ piece) :
    (part ++ separated sep parts).splitOn sep = part :: parts := by
  rw [append_separated_eq_intercalate]
  exact splitOn_intercalate sep free (cons_ne_nil _ _)

theorem splitOn_append_cons (before after : List α) :
    (before ++ sep :: after).splitOn sep =
      before.splitOn sep ++ after.splitOn sep :=
  splitOnP_append_cons before after (beq_self_eq_true sep)

theorem splitOn_of_free {last : List α} (free : sep ∉ last) :
    last.splitOn sep = [last] := by
  have alone := @splitOn_append_separated _ sep last [] _ _ (by simpa using free)
  rwa [separated_nil, append_nil] at alone

/-- The first part is what precedes the first separator. -/
theorem eq_of_first (free : ∀ piece ∈ part :: parts, sep ∉ piece)
    {first rest : List α} (firstFree : sep ∉ first)
    (start : part ++ separated sep parts = first ++ sep :: rest) :
    part = first /\ parts = rest.splitOn sep := by
  have split := splitOn_append_separated free
  rw [start, splitOn_append_cons, splitOn_of_free firstFree] at split
  exact ⟨(List.cons.inj split).1.symm, (List.cons.inj split).2.symm⟩

/-- The last part is what follows the last separator. -/
theorem getLast?_of_suffix (free : ∀ piece ∈ part :: parts, sep ∉ piece)
    {before last : List α} (lastFree : sep ∉ last)
    (suffix : part ++ separated sep parts = before ++ sep :: last) :
    parts.getLast? = some last := by
  have split := splitOn_append_separated free
  rw [suffix, splitOn_append_cons, splitOn_of_free lastFree] at split
  cases first : before.splitOn sep with
  | nil => exact absurd first (by simp)
  | cons head tail =>
    rw [first, cons_append] at split
    rw [<- (List.cons.inj split).2, List.getLast?_concat]

theorem exists_parts (sep : α) (text : List α) :
    ∃ part parts, text = part ++ separated sep parts /\
      text.splitOn sep = part :: parts /\ ∀ piece ∈ part :: parts, sep ∉ piece := by
  induction text with
  | nil => exact ⟨[], [], rfl, rfl, by simp⟩
  | cons c text ih =>
    rcases ih with ⟨part, parts, equal, _, free⟩
    rcases eq_or_ne c sep with rfl | differ
    · have freeAll : ∀ piece ∈ [] :: part :: parts, c ∉ piece := by
        intro piece mem
        rcases mem_cons.mp mem with rfl | later
        · exact not_mem_nil
        · exact free piece later
      have whole : c :: text = [] ++ separated c (part :: parts) := by
        rw [equal]
        rfl
      exact ⟨[], part :: parts, whole, whole ▸ splitOn_append_separated freeAll, freeAll⟩
    · have freeAll : ∀ piece ∈ (c :: part) :: parts, sep ∉ piece := by
        intro piece mem
        rcases mem_cons.mp mem with rfl | later
        · intro inside
          rcases mem_cons.mp inside with same | inPart
          · exact differ same.symm
          · exact free part mem_cons_self inPart
        · exact free piece (mem_cons_of_mem _ later)
      have whole : c :: text = (c :: part) ++ separated sep parts := by
        rw [equal]
        rfl
      exact ⟨c :: part, parts, whole, whole ▸ splitOn_append_separated freeAll, freeAll⟩

end Foundation
