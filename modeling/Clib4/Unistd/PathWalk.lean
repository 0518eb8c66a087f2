import Mathlib.Tactic.Ring
import Clib4.Foundation.TreeWalk
import Clib4.Unistd.PathPasses

namespace Clib4.Unistd

open Foundation List

/-!
# Where a path leads

The meaning of relative paths on either side: a Unix path goes up with each
`..`, an Amiga path with each slash that does not end a name.
-/

/-- The components of a path, with empty ones where slashes are neighbors. -/
def components (path : List Char) : List (List Char) := path.splitOn '/'

def unixSteps (path : List Char) : List (List Char) :=
  (components path).filter fun part => part ≠ [] /\ part ≠ ['.']

def unixMove (part : List Char) : Move (List Char) :=
  if part = ['.', '.'] then .up else .down part

def unixWalk (path : List Char) : Walk (List Char) :=
  Walk.start.follow ((unixSteps path).map unixMove)

def amigaMove (part : List Char) : Move (List Char) :=
  if part = [] then .up else .down part

/-- The moves of an Amiga path; nothing behind the last slash is no move. -/
def amigaMoves : List (List Char) -> List (Move (List Char))
  | [] => []
  | [last] => if last = [] then [] else [.down last]
  | part :: next :: parts => amigaMove part :: amigaMoves (next :: parts)

def amigaWalk (path : List Char) : Walk (List Char) :=
  Walk.start.follow (amigaMoves (components path))

variable {part : List Char} {parts : List (List Char)}

theorem amigaMoves_cons (ne : parts ≠ []) :
    amigaMoves (part :: parts) = amigaMove part :: amigaMoves parts := by
  cases parts with
  | nil => exact (ne rfl).elim
  | cons next parts => rfl

theorem amigaMoves_append (parts others : List (List Char)) (ne : others ≠ []) :
    amigaMoves (parts ++ others) = parts.map amigaMove ++ amigaMoves others := by
  induction parts with
  | nil => rfl
  | cons part parts ih =>
    rw [cons_append, amigaMoves_cons (by simp [ne]), ih]
    rfl

theorem components_pathOf (ne : parts ≠ []) (free : Free parts) :
    components (pathOf parts) = parts := by
  cases parts with
  | nil => exact (ne rfl).elim
  | cons part parts => exact splitOn_append_separated free

theorem components_ne_nil {path : List Char} : components path ≠ [] := by
  simp [components]

/-! ## Removing names in front of parent steps -/

variable {name : List Char}

variable {position start : Nat}

def ParentStep (name : List Char) (start : Nat) : Prop :=
  1 < start /\ name[start]? = some '/' /\ name[start - 1]? = some '/' /\
    name[start - 2]? ≠ some ':' /\ name[start - 2]? ≠ some '/'

theorem findParentStep_eq_some (found : findParentStep name position = some start) :
    ParentStep name start /\ start < position /\
      ∀ i, start <= i -> i < position -> name[i]? ≠ some ':' := by
  induction position with
  | zero => cases found
  | succ position ih =>
    rw [findParentStep] at found
    split at found
    · cases found
    · rename_i goesOn
      split at found
      · rename_i here
        cases found
        refine ⟨here, Nat.lt_succ_self _, fun i above below => ?_⟩
        rw [Nat.le_antisymm (Nat.le_of_lt_succ below) above]
        exact (not_or.mp (not_or.mp goesOn).2).1
      · obtain ⟨step, below, free⟩ := ih found
        refine ⟨step, Nat.lt_succ_of_lt below, fun i above inside => ?_⟩
        rcases Nat.lt_succ_iff_lt_or_eq.mp inside with inside | rfl
        · exact free i above inside
        · exact (not_or.mp (not_or.mp goesOn).2).1

theorem findParentStep_ne_none (step : ParentStep name start)
    (free : ∀ i, start <= i -> name[i]? ≠ some ':') (below : start < position) :
    findParentStep name position ≠ none := by
  induction position with
  | zero => cases below
  | succ position ih =>
    obtain ⟨large, slash, slashBefore, _⟩ := id step
    have notBefore : name[position - 1]? ≠ some ':' := by
      rcases Nat.lt_succ_iff_lt_or_eq.mp below with above | rfl
      · exact free _ (by omega)
      · simp [slashBefore]
    rw [findParentStep, if_neg (by simp [free position (by omega), notBefore]; omega)]
    split
    · exact Option.some_ne_none _
    · rename_i notHere
      rcases Nat.lt_succ_iff_lt_or_eq.mp below with above | rfl
      · exact ih above
      · exact (notHere step).elim

/-- A name begins behind a slash or a colon, or at the beginning of the path. -/
theorem nameStart_spec (name : List Char) (position : Nat) :
    nameStart name position <= position + 1 /\
      (∀ i, nameStart name position <= i -> i <= position ->
        name[i]? ≠ some ':' /\ name[i]? ≠ some '/') /\
      (nameStart name position = 0 \/ ∃ i, nameStart name position = i + 1 /\
        (name[i]? = some ':' \/ name[i]? = some '/')) := by
  induction position with
  | zero =>
    unfold nameStart
    split
    · rename_i here
      exact ⟨le_rfl, fun i above below => by omega, Or.inr ⟨0, rfl, here⟩⟩
    · rename_i here
      refine ⟨Nat.zero_le _, fun i _ below => ?_, Or.inl rfl⟩
      rw [Nat.le_zero.mp below]
      exact not_or.mp here
  | succ position ih =>
    unfold nameStart
    split
    · rename_i here
      exact ⟨le_rfl, fun i above below => by omega, Or.inr ⟨position + 1, rfl, here⟩⟩
    · rename_i here
      refine ⟨ih.1.trans (Nat.le_succ _), fun i above below => ?_, ih.2.2⟩
      rcases Nat.lt_or_ge position i with beyond | inside
      · rw [show i = position + 1 from Nat.le_antisymm below beyond]
        exact not_or.mp here
      · exact ih.2.1 i above inside

/-- One removal takes out a directory name and the two slashes behind it. -/
theorem removeParentStep_spec (found : findParentStep name position = some start) :
    ∃ before part after, name = before ++ part ++ '/' :: '/' :: after /\
      removeParentStep name start = before ++ after /\ part ≠ [] /\ '/' ∉ part /\ ':' ∉ part /\
      (position = name.length -> ':' ∉ after) /\
      (before = [] \/ ∃ front c, before = front ++ [c] /\ (c = ':' \/ c = '/')) := by
  obtain ⟨⟨large, slash, slashBefore, notColon, notSlash⟩, _, free⟩ := findParentStep_eq_some found
  obtain ⟨bound, inside, front⟩ := nameStart_spec name (start - 2)
  have startLt := (List.getElem?_eq_some_iff.mp slash).1
  -- the character in front of the slashes belongs to the name
  have startLe : nameStart name (start - 2) <= start - 2 := by
    rcases Nat.lt_or_ge (start - 2) (nameStart name (start - 2)) with beyond | within
    · rcases front with zero | ⟨i, equal, sep⟩
      · omega
      · have same : i = start - 2 := by omega
        rw [same] at sep
        rcases sep with colon | slash
        · exact (notColon colon).elim
        · exact (notSlash slash).elim
    · exact within
  generalize begins : nameStart name (start - 2) = first at *
  have whole : name = name.take first ++ (name.drop first).take (start - 1 - first) ++
      '/' :: '/' :: name.drop (start + 1) := by
    have tail : name.drop (start - 1) = '/' :: '/' :: name.drop (start + 1) := by
      rw [drop_eq_getElem_cons (by omega : start - 1 < name.length),
        show start - 1 + 1 = start by omega, drop_eq_getElem_cons startLt]
      obtain ⟨_, one⟩ := List.getElem?_eq_some_iff.mp slashBefore
      obtain ⟨_, two⟩ := List.getElem?_eq_some_iff.mp slash
      rw [one, two]
    rw [<- tail, append_assoc]
    have rejoin : (name.drop first).take (start - 1 - first) ++ name.drop (start - 1) =
        name.drop first := by
      have split := take_append_drop (start - 1 - first) (name.drop first)
      rwa [drop_drop, show first + (start - 1 - first) = start - 1 by omega] at split
    rw [rejoin, take_append_drop]
  have mem {c : Char} (sep : c = ':' \/ c = '/') :
      c ∉ (name.drop first).take (start - 1 - first) := by
    intro mem
    rcases mem_iff_getElem?.mp mem with ⟨i, here⟩
    rw [List.getElem?_take] at here
    split at here
    · rw [List.getElem?_drop] at here
      have other := inside (first + i) (Nat.le_add_right _ _) (by omega)
      rcases sep with rfl | rfl
      · exact other.1 here
      · exact other.2 here
    · cases here
  refine ⟨name.take first, (name.drop first).take (start - 1 - first), name.drop (start + 1),
    whole, ?_, ?_, mem (Or.inr rfl), mem (Or.inl rfl), ?_, ?_⟩
  · rw [removeParentStep, begins]
  · intro nil
    have size := congrArg List.length nil
    rw [length_take, length_drop, length_nil] at size
    clear front inside
    omega
  · rintro rfl colon
    rcases mem_iff_getElem?.mp colon with ⟨i, here⟩
    rw [List.getElem?_drop] at here
    exact free _ (by omega) (List.getElem?_eq_some_iff.mp here).1 here
  · rcases front with zero | ⟨i, equal, sep⟩
    · left
      rw [zero, take_zero]
    · right
      have lt : i < name.length := by omega
      refine ⟨name.take i, name.get ⟨i, lt⟩, ?_, ?_⟩
      · rw [equal, take_succ_eq_append_getElem lt]
        rfl
      · rw [List.getElem?_eq_getElem lt] at sep
        exact sep.imp Option.some.inj Option.some.inj

theorem removeParentStep_length (found : findParentStep name position = some start) :
    (removeParentStep name start).length < name.length := by
  rcases removeParentStep_spec found with ⟨before, part, after, whole, removed, _⟩
  rw [removed]
  conv_rhs => rw [whole]
  simp only [length_append, length_cons]
  omega

theorem findParentStep_stripDoubleSlash (name : List Char) :
    findParentStep (stripDoubleSlash name) (stripDoubleSlash name).length = none := by
  unfold stripDoubleSlash
  generalize fuel : name.length = size
  have enough := fuel.le
  clear fuel
  induction size generalizing name with
  | zero =>
    rw [length_eq_zero_iff.mp (Nat.le_zero.mp enough)]
    rfl
  | succ size ih =>
    rw [stripDoubleSlashFrom]
    split
    · assumption
    · rename_i start found
      exact ih _ (Nat.le_of_lt_succ ((removeParentStep_length found).trans_le enough))

def volumePart (name : List Char) : List Char := name.rdropWhile (· ≠ ':')

def directoryPart (name : List Char) : List Char := name.rtakeWhile (· ≠ ':')

theorem parts_append (front : List Char) {back : List Char} (noColon : ':' ∉ back) :
    volumePart (front ++ back) = volumePart front /\
      directoryPart (front ++ back) = directoryPart front ++ back := by
  induction back using List.reverseRecOn with
  | nil => simp
  | append_singleton back c ih =>
    rw [mem_append, mem_singleton, not_or] at noColon
    obtain ⟨sameVolume, directory⟩ := ih noColon.1
    have other := decide_eq_true (Ne.symm noColon.2)
    rw [<- append_assoc, <- append_assoc, <- sameVolume, <- directory]
    exact ⟨rdropWhile_concat_pos (fun c => decide (c ≠ ':')) _ _ other,
      rtakeWhile_concat_pos (fun c => decide (c ≠ ':')) _ _ other⟩

theorem directoryPart_of_not_colon (noColon : ':' ∉ name) : directoryPart name = name :=
  (parts_append [] noColon).2

theorem components_removeParentStep (found : findParentStep name name.length = some start) :
    volumePart (removeParentStep name start) = volumePart name /\
    ∃ before part after, part ≠ [] /\ after ≠ [] /\
      components (directoryPart name) = before ++ part :: [] :: after /\
      components (directoryPart (removeParentStep name start)) = before ++ after := by
  rcases removeParentStep_spec found with
    ⟨before, part, after, whole, removed, ne, free, noColon, afterColon, front⟩
  have tail : (part ++ '/' :: '/' :: after).splitOn '/' = part :: [] :: after.splitOn '/' := by
    rw [splitOn_append_cons, splitOn_of_free free, <- nil_append ('/' :: after)]
    rfl
  have tailColon : ':' ∉ part ++ '/' :: '/' :: after := by simp [noColon, afterColon rfl]
  obtain ⟨oldVolume, old⟩ := parts_append before tailColon
  obtain ⟨newVolume, new⟩ := parts_append before (afterColon rfl)
  rw [<- append_assoc, <- whole] at oldVolume old
  rw [<- removed] at newVolume new
  refine ⟨newVolume.trans oldVolume.symm, ?_⟩
  rw [old, new]
  rcases front with rfl | ⟨front, c, rfl, rfl | rfl⟩
  · exact ⟨[], part, components after, ne, components_ne_nil, tail, rfl⟩
  · have nil : directoryPart (front ++ [':']) = [] := rtakeWhile_concat_neg _ _ _ (by decide)
    rw [nil]
    exact ⟨[], part, components after, ne, components_ne_nil, tail, rfl⟩
  · rw [(parts_append front (by decide : ':' ∉ ['/'])).2]
    refine ⟨components (directoryPart front), part, components after, ne, components_ne_nil, ?_, ?_⟩
    · rw [append_assoc, components, singleton_append, splitOn_append_cons, tail]
      rfl
    · rw [append_assoc, components, singleton_append, splitOn_append_cons]
      rfl

/-- Removals change neither where a path leads nor which components there may be. -/
theorem stripDoubleSlash_parts (name : List Char) :
    volumePart (stripDoubleSlash name) = volumePart name /\
    amigaWalk (directoryPart (stripDoubleSlash name)) = amigaWalk (directoryPart name) /\
      components (directoryPart (stripDoubleSlash name)) ⊆ components (directoryPart name) := by
  unfold stripDoubleSlash
  generalize name.length = fuel
  induction fuel generalizing name with
  | zero => exact ⟨rfl, rfl, List.Subset.refl _⟩
  | succ fuel ih =>
    rw [stripDoubleSlashFrom]
    split
    · exact ⟨rfl, rfl, List.Subset.refl _⟩
    · rename_i start found
      rcases components_removeParentStep found with
        ⟨removedVolume, before, part, after, ne, afterNe, old, new⟩
      obtain ⟨sameVolume, sameWalk, subset⟩ := ih (removeParentStep name start)
      refine ⟨sameVolume.trans removedVolume, ?_, List.Subset.trans subset ?_⟩
      · rw [sameWalk, amigaWalk, amigaWalk, old, new, amigaMoves_append _ _ afterNe,
          amigaMoves_append _ _ (cons_ne_nil _ _), amigaMoves_cons (cons_ne_nil _ _),
          amigaMoves_cons afterNe, Walk.follow_append, Walk.follow_append, amigaMove, if_neg ne,
          amigaMove, if_pos rfl, Walk.follow_down_up]
      · rw [old, new]
        intro piece mem
        rcases mem_append.mp mem with early | late
        · simp [early]
        · simp [late]

theorem removeParentStep_subset (start : Nat) : removeParentStep name start ⊆ name := by
  intro c mem
  rcases mem_append.mp mem with early | late
  · exact mem_of_mem_take early
  · exact mem_of_mem_drop late

theorem stripDoubleSlash_subset (name : List Char) : stripDoubleSlash name ⊆ name := by
  unfold stripDoubleSlash
  generalize name.length = fuel
  induction fuel generalizing name with
  | zero => exact List.Subset.refl _
  | succ fuel ih =>
    rw [stripDoubleSlashFrom]
    split
    · exact List.Subset.refl _
    · exact List.Subset.trans (ih _) (removeParentStep_subset _)

/-- The loop ends, behind at most as many removals as the path has characters;
it keeps the volume name and where the path leads from there, and no two slashes
follow a name in what is left. -/
theorem stripDoubleSlash_reduced (name : List Char) :
    findParentStep (stripDoubleSlash name) (stripDoubleSlash name).length = none /\
    volumePart (stripDoubleSlash name) = volumePart name /\
    amigaWalk (directoryPart (stripDoubleSlash name)) = amigaWalk (directoryPart name) /\
    ∀ front c back,
      directoryPart (stripDoubleSlash name) = front ++ c :: '/' :: '/' :: back -> c = '/' := by
  have ends := findParentStep_stripDoubleSlash name
  obtain ⟨sameVolume, sameWalk, _⟩ := stripDoubleSlash_parts name
  refine ⟨ends, sameVolume, sameWalk, fun front c back equal => ?_⟩
  generalize stripDoubleSlash name = result at ends equal
  have whole : result = (volumePart result ++ front) ++ c :: '/' :: '/' :: back := by
    rw [append_assoc, <- equal]
    exact rdropWhile_append_rtakeWhile.symm
  have noColon : ':' ∉ front ++ c :: '/' :: '/' :: back := by
    rw [<- equal]
    intro colon
    have other := mem_rtakeWhile_imp (p := fun c => decide (c ≠ ':')) colon
    exact of_decide_eq_true other rfl
  by_contra other
  generalize volumePart result ++ front = before at whole
  have behind (i : Nat) : result[before.length + i]? = (c :: '/' :: '/' :: back)[i]? := by
    rw [whole, List.getElem?_append_right (Nat.le_add_right _ _), Nat.add_sub_cancel_left]
  have colonFree (i : Nat) : result[before.length + i]? ≠ some ':' := fun here =>
    noColon (mem_append_right _ (mem_of_getElem? ((behind i).symm.trans here)))
  have step : ParentStep result (before.length + 2) :=
    ⟨by omega, behind 2, behind 1, colonFree 0, fun slash =>
      other (Option.some.inj ((behind 0).symm.trans slash))⟩
  refine findParentStep_ne_none step (fun i above => ?_) ?_ ends
  · rw [show i = before.length + (i - before.length) by omega]
    exact colonFree _
  · rw [whole, length_append]
    exact Nat.add_lt_add_left (by simp) _

/-! ## Parent steps that are left over -/

/-- Two neighboring parent steps in a row that something else follows. -/
def Doubled (parts : List (List Char)) : Prop :=
  ∃ before after, after ≠ [] /\ parts = before ++ ['.', '.'] :: ['.', '.'] :: after

theorem doubled_cons : Doubled (part :: parts) <->
      part = ['.', '.'] /\ parts.head? = some ['.', '.'] /\ parts.tail ≠ [] \/ Doubled parts := by
  constructor
  · rintro ⟨before, after, ne, equal⟩
    cases before with
    | nil =>
      cases equal
      exact Or.inl ⟨rfl, rfl, ne⟩
    | cons first before => exact Or.inr ⟨before, after, ne, (List.cons.inj equal).2⟩
  · rintro (⟨rfl, head, ne⟩ | ⟨before, after, ne, rfl⟩)
    · cases parts with
      | nil => cases head
      | cons next parts =>
        rw [Option.some.inj head]
        exact ⟨[], parts, ne, rfl⟩
    · exact ⟨part :: before, after, ne, rfl⟩

theorem not_doubled_single (part : List Char) : ¬ Doubled [part] := by
  rw [doubled_cons]
  rintro (⟨_, head, _⟩ | ⟨before, after, _, equal⟩)
  · cases head
  · exact absurd equal (by simp)

/-- The components behind the first one, after the passes over parent steps. -/
def stepParts (parts : List (List Char)) : List (List Char) :=
  closeParents (markParents parts)

theorem closeParents_cons (ne : parts ≠ []) :
    closeParents (part :: parts) = part :: closeParents parts := by
  cases parts with
  | nil => exact (ne rfl).elim
  | cons next parts =>
    unfold closeParents
    rw [List.getLast?_cons_cons]
    split <;> rfl

theorem stepParts_ne_nil (ne : parts ≠ []) : stepParts parts ≠ [] :=
  closeParents_ne_nil (markParents_ne_nil ne)

theorem stepParts_other (other : part ≠ ['.', '.']) (ne : parts ≠ []) :
    stepParts (part :: parts) = part :: stepParts parts := by
  cases parts with
  | nil => exact (ne rfl).elim
  | cons next parts =>
    rw [stepParts, markParents, if_neg other,
      closeParents_cons (markParents_ne_nil (cons_ne_nil _ _))]
    rfl

theorem stepParts_parent {next : List Char} (ne : parts ≠ []) :
    stepParts (['.', '.'] :: next :: parts) = [] :: next :: stepParts parts := by
  rw [stepParts, markParents, if_pos rfl, closeParents_cons (cons_ne_nil _ _),
    closeParents_cons (markParents_ne_nil ne)]
  rfl

theorem stepParts_single (other : part ≠ ['.', '.']) : stepParts [part] = [part] := by
  simp [stepParts, markParents, closeParents, other]

theorem stepParts_pair {last : List Char} (other : last ≠ ['.', '.']) :
    stepParts [['.', '.'], last] = [[], last] := by
  simp [stepParts, markParents, closeParents, other]

theorem amigaMoves_stepParts_single (ne : part ≠ []) :
    amigaMoves (stepParts [part]) = [unixMove part] := by
  rcases eq_or_ne part ['.', '.'] with rfl | other
  · rfl
  · rw [stepParts_single other, amigaMoves, if_neg ne, unixMove, if_neg other]

theorem amigaMoves_stepParts_other
    (solid : part ≠ []) (other : part ≠ ['.', '.']) (ne : parts ≠ []) :
    amigaMoves (stepParts (part :: parts)) = unixMove part :: amigaMoves (stepParts parts) := by
  rw [stepParts_other other ne, amigaMoves_cons (stepParts_ne_nil ne), amigaMove, if_neg solid,
    unixMove, if_neg other]

theorem amigaMoves_stepParts_last {last : List Char} (solid : last ≠ []) :
    amigaMoves (stepParts [['.', '.'], last]) = [.up, unixMove last] := by
  rcases eq_or_ne last ['.', '.'] with rfl | other
  · rfl
  · rw [stepParts_pair other, unixMove, if_neg other]
    simp [amigaMoves, amigaMove, solid]

theorem amigaMoves_stepParts_parent {next : List Char} (solid : next ≠ []) (ne : parts ≠ []) :
    amigaMoves (stepParts (['.', '.'] :: next :: parts)) =
      .up :: .down next :: amigaMoves (stepParts parts) := by
  rw [stepParts_parent ne, amigaMoves_cons (cons_ne_nil _ _),
    amigaMoves_cons (stepParts_ne_nil ne), amigaMove, if_pos rfl, amigaMove, if_neg solid]

theorem amigaMoves_stepParts (ne : parts ≠ []) (solid : Solid parts) (single : ¬ Doubled parts) :
    amigaMoves (stepParts parts) = parts.map unixMove /\ ['.', '.'] ∉ stepParts parts := by
  fun_induction markParents parts with
  | case1 next parts ih =>
    rcases eq_or_ne parts [] with rfl | more
    · refine ⟨amigaMoves_stepParts_last solid.tail.head, ?_⟩
      rcases eq_or_ne next ['.', '.'] with rfl | other
      · decide
      · rw [stepParts_pair other]
        simpa using other.symm
    · rw [doubled_cons, doubled_cons] at single
      push Not at single
      have nextOther : next ≠ ['.', '.'] := fun same => more (single.1 rfl (congrArg some same))
      obtain ⟨moves, absent⟩ := ih more solid.tail.tail single.2.2
      rw [amigaMoves_stepParts_parent solid.tail.head more, moves, stepParts_parent more]
      refine ⟨?_, ?_⟩
      · simp [unixMove, nextOther]
      · simpa [nextOther.symm] using absent
  | case2 part next parts other ih =>
    rw [doubled_cons] at single
    push Not at single
    have more := cons_ne_nil next parts
    obtain ⟨moves, absent⟩ := ih more solid.tail single.2
    rw [amigaMoves_stepParts_other solid.head other more, moves, stepParts_other other more]
    refine ⟨rfl, ?_⟩
    rw [mem_cons]
    exact not_or.mpr ⟨Ne.symm other, absent⟩
  | case3 parts short =>
    rcases eq_nil_or_singleton short with rfl | ⟨part, rfl⟩
    · exact (ne rfl).elim
    · refine ⟨amigaMoves_stepParts_single solid.head, ?_⟩
      rcases eq_or_ne part ['.', '.'] with rfl | other
      · decide
      · rw [stepParts_single other, mem_singleton]
        exact other.symm

def rise (moves : List (Move (List Char))) : Int := (moves.map Move.rise).sum

@[simp]
theorem rise_cons (move : Move (List Char)) (moves : List (Move (List Char))) :
    rise (move :: moves) = move.rise + rise moves := by
  simp [rise]

theorem rise_unixMove_le (part : List Char) : (unixMove part).rise <= 1 := by
  unfold unixMove
  split
  · decide
  · exact le_rfl

theorem rise_stepParts (ne : parts ≠ []) (solid : Solid parts) :
    rise (parts.map unixMove) <= rise (amigaMoves (stepParts parts)) /\ (Doubled parts ->
        rise (parts.map unixMove) < rise (amigaMoves (stepParts parts))) := by
  fun_induction markParents parts with
  | case1 next parts ih =>
    rcases eq_or_ne parts [] with rfl | more
    · rw [amigaMoves_stepParts_last solid.tail.head]
      refine ⟨le_rfl, fun doubled => ?_⟩
      rcases doubled_cons.mp doubled with ⟨_, _, nil⟩ | doubled
      · exact (nil rfl).elim
      · exact (not_doubled_single next doubled).elim
    · obtain ⟨weak, strict⟩ := ih more solid.tail.tail
      have bound := rise_unixMove_le next
      rw [amigaMoves_stepParts_parent solid.tail.head more]
      rw [map_cons, map_cons, rise_cons, rise_cons, rise_cons, rise_cons]
      have up : (unixMove ['.', '.']).rise = (Move.up : Move (List Char)).rise := rfl
      have down : (Move.down next).rise = 1 := rfl
      refine ⟨by omega, fun doubled => ?_⟩
      have cases : next = ['.', '.'] \/ Doubled parts := by
        rcases doubled_cons.mp doubled with ⟨_, head, _⟩ | doubled
        · exact Or.inl (Option.some.inj head)
        · exact (doubled_cons.mp doubled).imp_left And.left
      rcases cases with same | later
      · have less : (unixMove next).rise = -1 := by
          rw [same]
          rfl
        omega
      · have less := strict later
        omega
  | case2 part next parts other ih =>
    have more := cons_ne_nil next parts
    obtain ⟨weak, strict⟩ := ih more solid.tail
    rw [amigaMoves_stepParts_other solid.head other more, map_cons, rise_cons, rise_cons]
    refine ⟨by omega, fun doubled => ?_⟩
    rcases doubled_cons.mp doubled with ⟨same, _⟩ | doubled
    · exact (other same).elim
    · have less := strict doubled
      omega
  | case3 parts short =>
    rcases eq_nil_or_singleton short with rfl | ⟨part, rfl⟩
    · exact (ne rfl).elim
    · rw [amigaMoves_stepParts_single solid.head]
      exact ⟨le_rfl, fun doubled => (not_doubled_single part doubled).elim⟩

/-! ## The translation of relative paths -/

theorem mem_pathOf {c : Char} (mem : c ∈ pathOf parts) :
    c = '/' \/ ∃ part, part ∈ parts /\ c ∈ part := by
  cases parts with
  | nil => cases mem
  | cons part parts =>
    rcases mem_append.mp mem with inside | later
    · exact Or.inr ⟨part, mem_cons_self, inside⟩
    · rcases mem_flatMap.mp later with ⟨piece, inParts, here⟩
      rcases mem_cons.mp here with same | inside
      · exact Or.inl same
      · exact Or.inr ⟨piece, mem_cons_of_mem _ inParts, inside⟩

theorem mem_pathOf_of_mem {c : Char}
    (mem : part ∈ parts) (inside : c ∈ part) : c ∈ pathOf parts := by
  cases parts with
  | nil => cases mem
  | cons first parts =>
    rcases mem_cons.mp mem with rfl | later
    · exact mem_append_left _ inside
    · exact mem_append_right _
        (mem_flatMap.mpr ⟨part, later, mem_cons_of_mem _ inside⟩)

/-- The components that are left when slashes and dots have been dealt with. -/
def remaining (path : List Char) : List (List Char) :=
  if unixSteps path = [] then [['.']] else unixSteps path

variable (path : List Char)

theorem remaining_ne_nil : remaining path ≠ [] := by
  unfold remaining
  split
  · exact cons_ne_nil _ _
  · assumption

theorem mem_remaining {path part : List Char} (mem : part ∈ remaining path) :
    part = ['.'] \/ part ∈ components path /\ part ≠ [] /\ part ≠ ['.'] := by
  unfold remaining at mem
  split at mem
  · exact Or.inl (mem_singleton.mp mem)
  · right
    obtain ⟨inside, both⟩ := mem_filter.mp mem
    exact ⟨inside, of_decide_eq_true both⟩

theorem free_components : Free (components path) := by
  rcases exists_parts '/' path with ⟨part, parts, _, split, free⟩
  rw [components, split]
  exact free

theorem free_remaining : Free (remaining path) := by
  intro part mem
  rcases mem_remaining mem with rfl | ⟨inside, _⟩
  · decide
  · exact free_components path part inside

theorem solid_remaining : Solid (remaining path) := by
  intro part mem
  rcases mem_remaining mem with rfl | ⟨_, ne, _⟩
  · decide
  · exact ne

theorem pathOf_components : pathOf (components path) = path := by
  rcases exists_parts '/' path with ⟨part, parts, equal, split, _⟩
  rw [components, split, pathOf, <- equal]

theorem not_colon_remaining {path part : List Char} (noColon : ':' ∉ path)
    (mem : part ∈ remaining path) : ':' ∉ part := by
  rcases mem_remaining mem with rfl | ⟨inside, _⟩
  · decide
  · intro colon
    apply noColon
    rw [<- pathOf_components path]
    exact mem_pathOf_of_mem inside colon

theorem ditch_relative {path : List Char} (relative : path.head? ≠ some '/') :
    ditchTrailing (ditchEmbedded (ditchLeading (stripTrailing (stripNeighbors path)))) =
        pathOf (remaining path) \/
      path = [] := by
  rcases eq_or_ne path [] with nil | ne
  · exact Or.inr nil
  left
  rcases exists_parts '/' path with ⟨part, parts, equal, split, free⟩
  have partNe : part ≠ [] := by
    rintro rfl
    cases parts with
    | nil => exact ne equal
    | cons next parts => exact relative (equal ▸ rfl)
  have left : stripTrailing (stripNeighbors path) = pathOf ((components path).filter (· ≠ [])) := by
    rw [components, split, filter_cons_of_pos (by simpa using partNe),
      <- stripTrailing_stripNeighbors partNe free, pathOf, <- equal]
  have someNe : (components path).filter (· ≠ []) ≠ [] := by
    rw [components, split, filter_cons_of_pos (by simpa using partNe)]
    exact cons_ne_nil _ _
  rw [left, ditch_pathOf someNe]
  · have both : ((components path).filter (· ≠ [])).filter (· ≠ ['.']) = unixSteps path := by
      rw [filter_filter]
      apply filter_congr
      intro piece _
      rw [Bool.and_comm]
      exact (Bool.decide_and _ _).symm
    rw [withoutDots, remaining, both]
  · intro piece mem
    exact free_components path piece (mem_of_mem_filter mem)
  · intro piece mem
    exact of_decide_eq_true (mem_filter.mp mem).2

def reduceSlashes (name : List Char) : List Char :=
  if name.length > 1 /\ hasDoubleSlash name then stripDoubleSlash name else name

theorem reduceSlashes_spec (noColon : ':' ∉ name) :
    amigaWalk (reduceSlashes name) = amigaWalk name /\
      components (reduceSlashes name) ⊆ components name := by
  unfold reduceSlashes
  split
  · have spec := (stripDoubleSlash_parts name).2
    rwa [directoryPart_of_not_colon noColon, directoryPart_of_not_colon
      fun colon => noColon (stripDoubleSlash_subset name colon)] at spec
  · exact ⟨rfl, List.Subset.refl _⟩

variable {first : List Char}

variable {rest : List (List Char)}

theorem not_colon_amigaParts
    (noColon : ∀ part ∈ first :: rest, ':' ∉ part) : ':' ∉ pathOf (amigaParts first rest) := by
  intro colon
  rcases mem_pathOf colon with slash | ⟨part, mem, inside⟩
  · exact absurd slash (by decide)
  · rcases mem_amigaParts mem with rfl | inList
    · cases inside
    · exact noColon part inList inside

theorem splitVolume_of_not_colon (noColon : ':' ∉ name) : splitVolume name = ([], name) := by
  have whole : name.takeWhile (· ≠ ':') = name := by
    apply takeWhile_eq_self_iff.mpr
    intro c mem
    simpa using fun same : c = ':' => noColon (same ▸ mem)
  unfold splitVolume
  rw [whole]
  exact if_neg (lt_irrefl _)

theorem translate_relative {path : List Char} (relative : path.head? ≠ some '/')
    (noColon : ':' ∉ path) (fits : path.length < pathMax) (steps : remaining path = first :: rest) :
    translateUnixToAmigaPathName path =
      .ok ⟨reduceSlashes (pathOf (amigaParts first rest)), false⟩ := by
  have free := steps ▸ free_remaining path
  have solid := steps ▸ solid_remaining path
  have colonFree : ∀ part ∈ first :: rest, ':' ∉ part := fun part mem =>
    not_colon_remaining noColon (steps ▸ mem)
  unfold translateUnixToAmigaPathName
  rw [if_neg noColon, if_neg (not_le.mpr fits)]
  rcases ditch_relative relative with passes | rfl
  · have notSlash := head?_pathOf_cons solid.head free
    have notRoot : pathOf (first :: rest) ≠ ['/'] := fun same => notSlash (same ▸ rfl)
    have nameColon : ':' ∉ pathOf (first :: rest) := by
      intro colon
      rcases mem_pathOf colon with slash | ⟨part, mem, inside⟩
      · exact absurd slash (by decide)
      · exact colonFree part mem inside
    have resultColon : ':' ∉ reduceSlashes (pathOf (amigaParts first rest)) := by
      intro colon
      refine not_colon_amigaParts colonFree ?_
      unfold reduceSlashes at colon
      split at colon
      · exact stripDoubleSlash_subset _ colon
      · exact colon
    rw [passes, steps]
    dsimp only
    rw [if_neg notSlash, splitVolume_of_not_colon nameColon]
    rw [if_neg nameColon, nil_append, translateParents_pathOf free, decide_eq_false notRoot,
      Bool.false_or]
    have notRootEnd : ¬ ((reduceSlashes (pathOf (amigaParts first rest))).length >= 2 /\
        (reduceSlashes (pathOf (amigaParts first rest))).drop
          ((reduceSlashes (pathOf (amigaParts first rest))).length - 2) = [':', '/']) := by
      rintro ⟨_, ending⟩
      apply resultColon
      apply mem_of_mem_drop
      rw [ending]
      exact mem_cons_self
    exact congrArg (fun root => Except.ok (Translated.mk _ root)) (decide_eq_false notRootEnd)
  · cases steps
    rfl

/-- The moves of the translated name, before names in front of parent steps are
removed. -/
theorem amigaMoves_amigaParts (ne : first ≠ []) (notDot : first ≠ ['.']) :
    amigaMoves (amigaParts first rest) =
      unixMove first :: if rest = [] then [] else amigaMoves (stepParts rest) := by
  unfold amigaParts
  by_cases nil : rest = []
  · rw [if_pos nil, if_pos nil]
    by_cases dotDot : first = ['.', '.']
    · rw [dotDot]
      rfl
    · rw [if_neg dotDot, if_neg notDot, unixMove, if_neg dotDot, amigaMoves, if_neg ne]
  · rw [if_neg nil, if_neg nil]
    refine (amigaMoves_cons (stepParts_ne_nil nil)).trans ?_
    by_cases dotDot : first = ['.', '.']
    · rw [dotDot]
      rfl
    · rw [if_neg dotDot, unixMove, if_neg dotDot, amigaMove, if_neg ne]

theorem amigaParts_ne_nil (first : List Char) (rest : List (List Char)) :
    amigaParts first rest ≠ [] := by
  unfold amigaParts
  split_ifs <;> exact cons_ne_nil _ _

theorem not_mem_amigaParts (absent : rest ≠ [] -> ['.', '.'] ∉ stepParts rest) :
    ['.', '.'] ∉ amigaParts first rest := by
  unfold amigaParts
  intro mem
  split_ifs at mem with nil dotDot dot dotDot
  · simp at mem
  · simp at mem
  · exact dotDot (mem_singleton.mp mem).symm
  · rcases mem_cons.mp mem with same | later
    · cases same
    · exact absent nil later
  · rcases mem_cons.mp mem with same | later
    · exact dotDot same.symm
    · exact absent nil later

theorem follow_ne_of_doubled
    (solid : Solid (first :: rest)) (notDot : first ≠ ['.']) (doubled : Doubled rest) :
    Walk.start.follow (amigaMoves (amigaParts first rest)) ≠
      Walk.start.follow ((first :: rest).map unixMove) := by
  have nil : rest ≠ [] := by
    rintro rfl
    rcases doubled with ⟨before, after, _, equal⟩
    exact absurd equal (by simp)
  intro equal
  have less := (rise_stepParts nil solid.tail).2 doubled
  have depths := congrArg Walk.depth equal
  rw [amigaMoves_amigaParts solid.head notDot, if_neg nil,
    Walk.depth_follow, Walk.depth_follow, map_cons, map_cons, map_cons,
    sum_cons, sum_cons] at depths
  unfold rise at less
  omega

/-- Two neighboring `..` that are neither the first nor the last step of a path. -/
def InnerDotDots (steps : List (List Char)) : Prop :=
  ∃ before after, before ≠ [] /\ after ≠ [] /\
    steps = before ++ ['.', '.'] :: ['.', '.'] :: after

theorem innerDotDots_cons : InnerDotDots (first :: rest) <-> Doubled rest := by
  constructor
  · rintro ⟨before, after, beforeNe, afterNe, equal⟩
    cases before with
    | nil => exact (beforeNe rfl).elim
    | cons head before => exact ⟨before, after, afterNe, (List.cons.inj equal).2⟩
  · rintro ⟨before, after, afterNe, rfl⟩
    exact ⟨first :: before, after, cons_ne_nil _ _, afterNe, rfl⟩

/-- The name leads where the path leads, and has no dots left in it. -/
def Faithful (path name : List Char) : Prop :=
  amigaWalk name = unixWalk path /\ ['.'] ∉ components name /\ ['.', '.'] ∉ components name

/-- For every relative path without a colon that fits the buffer, the Amiga name
leads where the path leads, with no `.` or `..` left, if and only if the path has
no two neighboring `..` which are neither its first nor its last step. -/
theorem unix_to_amiga_faithful_iff (path : List Char) (relative : path.head? ≠ some '/')
    (noColon : ':' ∉ path) (fits : path.length < pathMax) :
    ∃ name, translateUnixToAmigaPathName path = .ok ⟨name, false⟩ /\
      (Faithful path name <-> ¬ InnerDotDots (unixSteps path)) := by
  obtain ⟨first, rest, steps⟩ := exists_cons_of_ne_nil (remaining_ne_nil path)
  refine ⟨_, translate_relative relative noColon fits steps, ?_⟩
  have free := steps ▸ free_remaining path
  have solid := steps ▸ solid_remaining path
  have colonFree : ∀ part ∈ first :: rest, ':' ∉ part := fun part mem =>
    not_colon_remaining noColon (steps ▸ mem)
  obtain ⟨sameWalk, subset⟩ := reduceSlashes_spec (not_colon_amigaParts colonFree)
  have parts := components_pathOf (amigaParts_ne_nil first rest) free.amigaParts
  rw [parts] at subset
  have walk : amigaWalk (reduceSlashes (pathOf (amigaParts first rest))) =
      Walk.start.follow (amigaMoves (amigaParts first rest)) := by
    rw [sameWalk, amigaWalk, parts]
  unfold Faithful unixWalk
  rw [walk]
  by_cases nothing : unixSteps path = []
  · -- the path does not lead anywhere, and neither does the empty name
    rw [remaining, if_pos nothing] at steps
    cases steps
    rw [nothing]
    refine iff_of_true ⟨rfl, ?_, ?_⟩ ?_
    · exact fun mem => absurd (subset mem) (by decide)
    · exact fun mem => absurd (subset mem) (by decide)
    · rintro ⟨before, after, _, _, equal⟩
      exact absurd equal (by simp)
  · rw [remaining, if_neg nothing] at steps
    have notDots : ∀ part ∈ first :: rest, part ≠ ['.'] := by
      intro part mem
      rw [<- steps] at mem
      exact (of_decide_eq_true (mem_filter.mp mem).2).2
    have firstNotDot := notDots first mem_cons_self
    rw [steps, innerDotDots_cons]
    constructor
    · rintro ⟨equal, _⟩ doubled
      exact follow_ne_of_doubled solid firstNotDot doubled equal
    · intro single
      have inner (ne : rest ≠ []) := amigaMoves_stepParts ne solid.tail single
      rw [amigaMoves_amigaParts solid.head firstNotDot]
      refine ⟨?_, fun mem => ?_, fun mem => ?_⟩
      · split_ifs with nil
        · rw [nil]
          rfl
        · rw [(inner nil).1]
          rfl
      · rcases mem_amigaParts (subset mem) with nil | inList
        · cases nil
        · exact notDots _ inList rfl
      · exact not_mem_amigaParts (fun ne => (inner ne).2) (subset mem)

/-- A path with names, dots, neighboring slashes and parent steps. -/
theorem unix_to_amiga_faithful_mixed :
    translateUnixToAmigaPathName "../a//./b/../c/".toList = .ok ⟨"/a/c".toList, false⟩ /\
      Faithful "../a//./b/../c/".toList "/a/c".toList := by
  rcases unix_to_amiga_faithful_iff "../a//./b/../c/".toList (by decide) (by decide) (by decide) with
    ⟨name, translated, faithful⟩
  have result : translateUnixToAmigaPathName "../a//./b/../c/".toList =
      .ok ⟨"/a/c".toList, false⟩ := by decide +kernel
  have steps : unixSteps "../a//./b/../c/".toList =
      [['.', '.'], ['a'], ['b'], ['.', '.'], ['c']] := by decide +kernel
  cases translated.symm.trans result
  refine ⟨result, faithful.mpr ?_⟩
  rw [steps]
  rintro ⟨_ | ⟨_, _ | ⟨_, _ | ⟨_, _ | ⟨_, _⟩⟩⟩⟩, after, -, -, equal⟩ <;> simp at equal
  have lengths := congrArg List.length equal.2.2.2.2
  simp only [length_append, length_cons, length_nil] at lengths
  omega

/-- A pattern that the source lists among those which must translate properly. -/
theorem two_parent_steps_inside_translate_wrongly :
    translateUnixToAmigaPathName "foo/bar/../../baz".toList = .ok ⟨"foo/../baz".toList, false⟩ /\
      ¬ Faithful "foo/bar/../../baz".toList "foo/../baz".toList := by
  constructor
  · decide +kernel
  · rintro ⟨_, _, absent⟩
    exact absent (by decide +kernel)

end Clib4.Unistd
