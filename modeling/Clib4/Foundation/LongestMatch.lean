import Mathlib.Data.List.TakeWhile

namespace Foundation

open List

/-!
# Longest matches

A language is a predicate on texts.  `Matching` says what is left of an input
behind the longest prefix that is in the language.  The rules below follow the
way scanners are composed: characters of a class, blanks in front, one optional
character in front.
-/

variable {α : Type} {L M : List α -> Prop} {input : List α}

/-- What is left behind the longest prefix in the language, and `none` when no
prefix is in it. -/
def Matching (L : List α -> Prop) (input : List α) : Option (List α) -> Prop
  | some rest => ∃ text, text ++ rest = input /\ L text /\
      ∀ other behind, other ++ behind = input -> L other -> rest.length <= behind.length
  | none => ∀ other behind, other ++ behind = input -> ¬ L other

theorem Matching.unique {first second : Option (List α)} (one : Matching L input first)
    (two : Matching L input second) : first = second := by
  cases first with
  | none =>
    cases second with
    | none => rfl
    | some rest =>
      rcases two with ⟨text, split, mem, _⟩
      exact absurd mem (one text rest split)
  | some rest =>
    rcases one with ⟨text, split, mem, longest⟩
    cases second with
    | none => exact absurd mem (two text rest split)
    | some left =>
      rcases two with ⟨text', split', member', longest'⟩
      have lengths := Nat.le_antisymm (longest text' left split' member') (longest' text rest split
        mem)
      exact congrArg some (append_inj_right' (split.trans split'.symm) lengths)

variable {result : Option (List α)}

theorem Matching.congr (same : ∀ text rest, text ++ rest = input -> (L text <-> M text))
    (matching : Matching L input result) : Matching M input result := by
  cases result with
  | none =>
    intro other behind split mem
    exact matching other behind split ((same other behind split).mpr mem)
  | some rest =>
    rcases matching with ⟨text, split, mem, longest⟩
    exact ⟨text, split, (same text rest split).mp mem, fun other behind split' member' =>
      longest other behind split' ((same other behind split').mpr member')⟩

/-- A match that is at least as long as every match of another language. -/
theorem Matching.or {rest : List α} (matching : Matching L input (some rest))
    (shorter : ∀ text behind, text ++ behind = input -> M text -> rest.length <= behind.length) :
    Matching (fun text => L text \/ M text) input (some rest) := by
  rcases matching with ⟨text, split, mem, longest⟩
  exact ⟨text, split, Or.inl mem, fun other behind split' either =>
    either.elim (longest other behind split') (shorter other behind split')⟩

variable {test : α -> Bool}

/-- A prefix of characters that satisfy a test ends before the first that does not. -/
theorem dropWhile_length_le {text behind : List α}
    (split : text ++ behind = input) (all : ∀ c ∈ text, test c) :
    (input.dropWhile test).length <= behind.length := by
  subst split
  rw [dropWhile_append_of_pos all]
  exact (dropWhile_suffix test).length_le

/-- The longest text of characters that satisfy a test, if there is one. -/
theorem matching_takeWhile (test : α -> Bool) (input : List α) :
    Matching (fun text => text ≠ [] /\ ∀ c ∈ text, test c) input
      (if input.takeWhile test = [] then none else some (input.dropWhile test)) := by
  split_ifs with empty
  · rintro text behind split ⟨nonempty, all⟩
    have whole : input.dropWhile test = input := by
      have parts : input.takeWhile test ++ input.dropWhile test = input :=
        takeWhile_append_dropWhile
      rw [empty] at parts
      exact parts
    have short := dropWhile_length_le split all
    rw [whole, <- split, length_append] at short
    exact nonempty (eq_nil_of_length_eq_zero (by omega))
  · exact ⟨input.takeWhile test, takeWhile_append_dropWhile,
      ⟨empty, fun c mem => mem_takeWhile_imp mem⟩,
      fun text behind split mem => dropWhile_length_le split mem.2⟩

/-- Every text of the language begins with a character for which the test fails. -/
def BeginsOutside (test : α -> Bool) (L : List α -> Prop) : Prop :=
  ∀ text, L text -> ∃ first rest, text = first :: rest /\ test first = false

/-- Texts of a language behind characters that none of them begins with. -/
theorem Matching.skip (outside : BeginsOutside test L)
    (matching : Matching L (input.dropWhile test) result) :
    Matching (fun text => ∃ blanks body, text = blanks ++ body /\
      (∀ c ∈ blanks, test c) /\ L body) input result := by
  have behindBlanks : ∀ blanks body behind, (blanks ++ body) ++ behind = input ->
      (∀ c ∈ blanks, test c) -> L body -> body ++ behind = input.dropWhile test := by
    rintro blanks body behind rfl all mem
    rcases outside body mem with ⟨first, rest, rfl, fails⟩
    rw [append_assoc, dropWhile_append_of_pos all, cons_append,
      dropWhile_cons_of_neg (by rw [fails]; exact Bool.false_ne_true)]
  cases result with
  | none =>
    rintro text behind split ⟨blanks, body, rfl, all, mem⟩
    exact matching body behind (behindBlanks blanks body behind split all mem) mem
  | some rest =>
    rcases matching with ⟨text, split, mem, longest⟩
    refine ⟨input.takeWhile test ++ text, ?_,
      ⟨_, text, rfl, fun c inside => mem_takeWhile_imp inside, mem⟩, ?_⟩
    · rw [append_assoc, split, takeWhile_append_dropWhile]
    · rintro other behind split' ⟨blanks, body, rfl, all, member'⟩
      exact longest body behind (behindBlanks blanks body behind split' all member') member'

/-- Texts of a language, maybe with one character of a class in front. -/
def Optionally (test : α -> Bool) (L : List α -> Prop) (text : List α) : Prop :=
  L text \/ ∃ first body, test first /\ text = first :: body /\ L body

theorem Matching.optionally_present (outside : BeginsOutside test L) {first : α}
    (present : test first) (matching : Matching L input result) :
    Matching (Optionally test L) (first :: input) result := by
  have behindFirst : ∀ text behind, text ++ behind = first :: input ->
      Optionally test L text -> ∃ body, L body /\ body ++ behind = input := by
    rintro text behind split (plain | ⟨_, body, _, rfl, mem⟩)
    · rcases outside text plain with ⟨c, rest, rfl, fails⟩
      cases split
      rw [present] at fails
      cases fails
    · cases split
      exact ⟨body, mem, rfl⟩
  cases result with
  | none =>
    intro text behind split mem
    rcases behindFirst text behind split mem with ⟨body, inside, split'⟩
    exact matching body behind split' inside
  | some rest =>
    rcases matching with ⟨text, split, mem, longest⟩
    refine ⟨first :: text, congrArg (first :: ·) split,
      Or.inr ⟨first, text, present, rfl, mem⟩, ?_⟩
    intro other behind split' member'
    rcases behindFirst other behind split' member' with ⟨body, inside, split''⟩
    exact longest body behind split'' inside

theorem Matching.optionally_absent
    (absent : ∀ first rest, input = first :: rest -> test first = false)
    (matching : Matching L input result) :
    Matching (Optionally test L) input result := by
  refine matching.congr fun text rest split => ⟨Or.inl, ?_⟩
  rintro (plain | ⟨first, body, present, rfl, _⟩)
  · exact plain
  · rw [absent first (body ++ rest) split.symm] at present
    cases present

/-! ## Texts that can be completed -/

/-- The texts that can be completed to a text of the language. -/
def PrefixOf (L : List α -> Prop) (text : List α) : Prop := ∃ more, L (text ++ more)

/-- A language between one text of characters that satisfy a test and all of them. -/
theorem Matching.of_takeWhile (mem : L (input.takeWhile test))
    (all : ∀ text behind, text ++ behind = input -> L text -> ∀ c ∈ text, test c) :
    Matching L input (some (input.dropWhile test)) :=
  ⟨input.takeWhile test, takeWhile_append_dropWhile, mem,
    fun text behind split other => dropWhile_length_le split (all text behind split other)⟩

theorem prefixOf_optionally (inhabited : ∃ text, L text) (text : List α) :
    PrefixOf (Optionally test L) text <-> Optionally test (PrefixOf L) text := by
  constructor
  · rintro ⟨more, plain | ⟨first, body, present, same, mem⟩⟩
    · exact Or.inl ⟨more, plain⟩
    · cases text with
      | nil => exact Or.inl inhabited
      | cons c rest =>
        cases same
        exact Or.inr ⟨_, rest, present, rfl, more, mem⟩
  · rintro (⟨more, plain⟩ | ⟨first, body, present, rfl, more, mem⟩)
    · exact ⟨more, Or.inl plain⟩
    · exact ⟨more, Or.inr ⟨first, body ++ more, present, rfl, mem⟩⟩

/-- The empty text may be in the language when a match behind the character is known. -/
theorem Matching.optionally_some
    (outside : ∀ c rest, L (c :: rest) -> test c = false) {first : α}
    (present : test first) {rest : List α} (matching : Matching L input (some rest)) :
    Matching (Optionally test L) (first :: input) (some rest) := by
  rcases matching with ⟨text, split, mem, longest⟩
  refine ⟨first :: text, congrArg (first :: ·) split,
    Or.inr ⟨first, text, present, rfl, mem⟩, ?_⟩
  rintro other behind split' (plain | ⟨_, body, _, rfl, member'⟩)
  · cases other with
    | nil =>
      rw [<- nil_append behind, split', <- split, length_cons, length_append]
      omega
    | cons c others =>
      cases split'
      rw [outside first others plain] at present
      cases present
  · cases split'
    exact longest body behind rfl member'

end Foundation
