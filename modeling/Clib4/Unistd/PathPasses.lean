import Clib4.Foundation.Separated
import Clib4.Unistd.PathNames

namespace Clib4.Unistd

open Foundation List

/-!
# The passes over a path name

What each pass of the translation does to the components of a relative path.
-/

def pathOf : List (List Char) -> List Char
  | [] => []
  | part :: parts => part ++ separated '/' parts

def Free (parts : List (List Char)) : Prop := ∀ part ∈ parts, '/' ∉ part

def Solid (parts : List (List Char)) : Prop := ∀ part ∈ parts, part ≠ []

variable {part : List Char} {parts : List (List Char)}

theorem Free.head (free : Free (part :: parts)) : '/' ∉ part := (forall_mem_cons.mp free).1

theorem Free.tail (free : Free (part :: parts)) : Free parts := (forall_mem_cons.mp free).2

theorem Solid.head (solid : Solid (part :: parts)) : part ≠ [] :=
  (forall_mem_cons.mp solid).1

theorem Solid.tail (solid : Solid (part :: parts)) : Solid parts :=
  (forall_mem_cons.mp solid).2

theorem eq_nil_or_singleton
    (short : ∀ part next others, parts = part :: next :: others -> False) :
    parts = [] \/ ∃ part, parts = [part] :=
  match parts with
  | [] => Or.inl rfl
  | [part] => Or.inr ⟨part, rfl⟩
  | part :: next :: others => (short part next others rfl).elim

/-! ## Neighboring and trailing slashes -/

theorem dropNeighbors_append (ne : part ≠ []) (free : '/' ∉ part) {flag : Bool} {rest : List Char} :
    dropNeighbors flag (part ++ rest) = part ++ dropNeighbors false rest := by
  induction part generalizing flag with
  | nil => exact (ne rfl).elim
  | cons c part ih =>
    have other : c ≠ '/' := fun same => free (same ▸ mem_cons_self)
    rw [cons_append, dropNeighbors, if_neg other]
    cases part with
    | nil => rfl
    | cons d part =>
      rw [ih (cons_ne_nil _ _) (fun mem => free (mem_cons_of_mem _ mem))]
      rfl

def closing (parts : List (List Char)) : List Char :=
  if parts.getLast? = some [] then ['/'] else []

theorem closing_cons (ne : parts ≠ []) : closing (part :: parts) = closing parts := by
  cases parts with
  | nil => exact (ne rfl).elim
  | cons next parts => rfl

theorem dropNeighbors_separated (free : Free parts) : dropNeighbors false (separated '/' parts) =
      separated '/' (parts.filter (· ≠ [])) ++ closing parts := by
  induction parts with
  | nil => rfl
  | cons part parts ih =>
    rw [separated_cons, cons_append, dropNeighbors, if_pos rfl]
    rcases eq_or_ne part [] with rfl | ne
    · cases parts with
      | nil => rfl
      | cons next parts =>
        have again := ih free.tail
        rw [closing_cons (cons_ne_nil _ _), filter_cons_of_neg (by simp), <- again]
        rfl
    · rw [dropNeighbors_append ne free.head, ih free.tail, filter_cons_of_pos (by simpa using
        ne)]
      cases parts with
      | nil =>
        have open_ : closing [part] = [] := if_neg (by simpa using ne)
        rw [open_]
        simp [closing]
      | cons next parts =>
        rw [closing_cons (cons_ne_nil _ _)]
        simp

variable {name : List Char}

theorem dropNeighbors_eq_self (single : hasDoubleSlash name = false) :
    dropNeighbors false name = name := by
  fun_induction hasDoubleSlash name with
  | case1 => cases single
  | case2 c rest other ih =>
    rw [dropNeighbors]
    by_cases slash : c = '/'
    · subst slash
      rw [if_pos rfl, if_neg Bool.false_ne_true]
      cases rest with
      | nil => rfl
      | cons d rest =>
        have notSlash : d ≠ '/' := fun same => other rest rfl (same ▸ rfl)
        have again := ih single
        rw [dropNeighbors, if_neg notSlash] at again
        rw [dropNeighbors, if_neg notSlash, again]
    · rw [if_neg slash, ih single]
  | case3 => rfl

theorem stripNeighbors_eq (relative : name.head? ≠ some '/') :
    stripNeighbors name = dropNeighbors false name := by
  unfold stripNeighbors
  split
  · rfl
  · rename_i skip
    cases double : hasDoubleSlash name with
    | false => exact (dropNeighbors_eq_self double).symm
    | true =>
      -- a name of two slashes would be absolute
      have short := not_lt.mp fun long => skip ⟨long, double⟩
      match name, relative, double, short with
      | [c], _, double, _ => simp [hasDoubleSlash] at double
      | [c, d], relative, double, _ =>
        have notSlash : c ≠ '/' := fun same => relative (congrArg some same)
        simp [hasDoubleSlash, notSlash] at double

theorem getLast?_append_separated {start : List Char} (startLast : start.getLast? ≠ some '/')
    (free : Free parts) (solid : Solid parts) :
    (start ++ separated '/' parts).getLast? ≠ some '/' := by
  induction parts generalizing start with
  | nil =>
    rw [separated_nil, append_nil]
    exact startLast
  | cons part parts ih =>
    rw [separated_cons, <- append_assoc]
    refine ih ?_ free.tail solid.tail
    have ne := solid.head
    intro last
    rw [List.getLast?_append_of_ne_nil _ (cons_ne_nil _ _), List.getLast?_cons,
      List.getLast?_eq_getLast_of_ne_nil ne] at last
    exact free.head (Option.some.inj last ▸ getLast_mem ne)

theorem rdropWhile_of_getLast? (last : name.getLast? ≠ some '/') :
    name.rdropWhile (· == '/') = name := by
  refine rdropWhile_eq_self_iff.mpr fun ne slash => last ?_
  rw [List.getLast?_eq_getLast_of_ne_nil ne, eq_of_beq slash]

theorem stripTrailing_pathOf (free : Free (part :: parts)) (solid : Solid (part :: parts))
    {slashes : List Char} (few : slashes = [] \/ slashes = ['/']) :
    stripTrailing (part ++ separated '/' parts ++ slashes) = part ++ separated '/' parts := by
  cases part with
  | nil => exact (solid.head rfl).elim
  | cons c part =>
    have partFree : '/' ∉ part := fun mem =>
      free.head (mem_cons_of_mem _ mem)
    have kept := rdropWhile_of_getLast? (getLast?_append_separated
      (fun last => partFree (mem_of_getLast? last)) free.tail solid.tail)
    rw [cons_append, cons_append, stripTrailing]
    rcases few with rfl | rfl
    · rw [append_nil, kept]
    · rw [rdropWhile_concat_pos _ _ _ rfl, kept]

theorem head?_pathOf_cons (ne : part ≠ []) (free : Free (part :: parts)) :
    (pathOf (part :: parts)).head? ≠ some '/' := by
  cases part with
  | nil => exact (ne rfl).elim
  | cons c part =>
    intro slash
    exact free.head (Option.some.inj slash ▸ mem_cons_self)

theorem stripTrailing_stripNeighbors (ne : part ≠ []) (free : Free (part :: parts)) :
    stripTrailing (stripNeighbors (pathOf (part :: parts))) =
      pathOf (part :: parts.filter (· ≠ [])) := by
  rw [stripNeighbors_eq (head?_pathOf_cons ne free), pathOf, dropNeighbors_append ne free.head,
    dropNeighbors_separated free.tail, <- append_assoc]
  apply stripTrailing_pathOf
  · exact forall_mem_cons.mpr
      ⟨free.head, fun piece later => free.tail piece (mem_of_mem_filter later)⟩
  · exact forall_mem_cons.mpr
      ⟨ne, fun piece later => of_decide_eq_true (mem_filter.mp later).2⟩
  · unfold closing
    split
    · exact Or.inr rfl
    · exact Or.inl rfl

/-! ## Dots -/

def dropDots : List (List Char) -> List (List Char)
  | part :: next :: parts =>
    if part = ['.'] then dropDots (next :: parts) else part :: next :: parts
  | parts => parts

theorem ditchLeading_pathOf (free : Free parts) (solid : Solid parts) :
    ditchLeading (pathOf parts) = pathOf (dropDots parts) := by
  fun_induction dropDots parts with
  | case1 next parts ih =>
    rw [<- ih free.tail solid.tail]
    cases next with
    | nil => exact (solid [] (by simp) rfl).elim
    | cons c next => rfl
  | case2 part next parts other =>
    unfold ditchLeading
    split
    · rename_i c rest equal
      exact (other (eq_of_first free (show '/' ∉ ['.'] by decide) equal).1).elim
    · rfl
  | case3 parts short =>
    rcases eq_nil_or_singleton short with rfl | ⟨part, rfl⟩
    · rfl
    · unfold ditchLeading
      split
      · rename_i c rest equal
        have inside : '/' ∈ part ++ separated '/' [] := by
          rw [show part ++ separated '/' [] = _ from equal]
          simp
        rw [separated_nil, append_nil] at inside
        exact (free.head inside).elim
      · rfl

/-- The components without those that are dots, the last one excepted. -/
def dropInnerDots : List (List Char) -> List (List Char)
  | part :: next :: parts =>
    if part = ['.'] then dropInnerDots (next :: parts)
    else part :: dropInnerDots (next :: parts)
  | parts => parts

variable {rest : List Char}

theorem dropSlashDot_append (free : '/' ∉ part) :
    dropSlashDot (part ++ rest) = part ++ dropSlashDot rest := by
  induction part with
  | nil => rfl
  | cons c part ih =>
    have other : c ≠ '/' := fun same => free (same ▸ mem_cons_self)
    rw [cons_append, dropSlashDot.eq_3 _ _ (fun _ slash => (other slash).elim),
      ih fun mem => free (mem_cons_of_mem _ mem)]
    rfl

theorem dropSlashDot_component (ne : part ≠ []) (free : '/' ∉ part) (other : part ≠ ['.']) :
    dropSlashDot ('/' :: part ++ rest) = '/' :: part ++ dropSlashDot rest := by
  cases part with
  | nil => exact (ne rfl).elim
  | cons c part =>
    by_cases dot : c = '.'
    · subst dot
      cases part with
      | nil => exact (other rfl).elim
      | cons d part =>
        have notSlash : d ≠ '/' := fun same => free (same ▸ by simp)
        have partFree : '/' ∉ d :: part := fun mem => free (mem_cons_of_mem _ mem)
        show dropSlashDot ('/' :: '.' :: ((d :: part) ++ rest)) = _
        rw [dropSlashDot, if_neg (by simpa using notSlash), dropSlashDot_append partFree]
        rfl
    · rw [cons_append, dropSlashDot.eq_3 '/' (c :: part ++ rest)
        (fun _ _ equal => dot (List.cons.inj equal).1), dropSlashDot_append free]
      rfl

theorem dropSlashDot_separated (free : Free parts) (solid : Solid parts) :
    dropSlashDot (separated '/' parts) = separated '/' (dropInnerDots parts) := by
  fun_induction dropInnerDots parts with
  | case1 next parts ih =>
    rw [<- ih free.tail solid.tail]
    show dropSlashDot ('/' :: '.' :: ('/' :: next ++ separated '/' parts)) = _
    exact if_pos rfl
  | case2 part next parts other ih =>
    rw [@separated_cons _ _ part (dropInnerDots (next :: parts)), <- ih free.tail solid.tail]
    exact dropSlashDot_component solid.head free.head
      other
  | case3 parts short =>
    rcases eq_nil_or_singleton short with rfl | ⟨part, rfl⟩
    · rfl
    · rcases eq_or_ne part ['.'] with rfl | other
      · rfl
      · exact dropSlashDot_component solid.head free.head other

theorem dropSlashDot_eq_self (without : hasSlashDotSlash name = false) :
    dropSlashDot name = name := by
  fun_induction hasSlashDotSlash name with
  | case1 => cases without
  | case2 c rest other ih =>
    have kept := ih without
    by_cases start : ∃ tail, c = '/' /\ rest = '.' :: tail
    · rcases start with ⟨tail, rfl, rfl⟩
      rw [dropSlashDot.eq_3 _ _ (fun _ slash => by cases slash)] at kept
      have noSlash : tail.head? ≠ some '/' := by
        intro slash
        cases tail with
        | nil => cases slash
        | cons d tail => exact other tail rfl (by rw [Option.some.inj slash])
      rw [dropSlashDot, if_neg noSlash, kept]
    · rw [dropSlashDot.eq_3 _ _ (fun tail slash dot => start ⟨tail, slash, dot⟩), kept]
  | case3 => rfl

theorem ditchEmbedded_eq (name : List Char) : ditchEmbedded name = dropSlashDot name := by
  unfold ditchEmbedded
  split
  · rfl
  · rename_i skip
    cases embedded : hasSlashDotSlash name with
    | false => exact (dropSlashDot_eq_self embedded).symm
    | true =>
      have short := not_lt.mp fun long => skip ⟨long, embedded⟩
      match name, embedded, short with
      | [c], embedded, _ => simp [hasSlashDotSlash] at embedded
      | [c, d], embedded, _ => simp [hasSlashDotSlash] at embedded

theorem ditchEmbedded_pathOf (free : Free (part :: parts)) (solid : Solid parts) :
    ditchEmbedded (pathOf (part :: parts)) = pathOf (part :: dropInnerDots parts) := by
  rw [ditchEmbedded_eq, pathOf, dropSlashDot_append free.head,
    dropSlashDot_separated free.tail solid]
  rfl

theorem dropInnerDots_eq (parts : List (List Char)) :
    dropInnerDots parts = parts.filter (· ≠ ['.']) ++
      if parts.getLast? = some ['.'] then [['.']] else [] := by
  fun_induction dropInnerDots parts with
  | case1 next parts ih => simpa using ih
  | case2 part next parts other ih =>
    have kept : (part :: next :: parts).filter (· ≠ ['.']) =
        part :: (next :: parts).filter (· ≠ ['.']) :=
      filter_cons_of_pos (by simpa using other)
    rw [ih, kept]
    rfl
  | case3 parts short =>
    rcases eq_nil_or_singleton short with rfl | ⟨part, rfl⟩
    · rfl
    · rcases eq_or_ne part ['.'] with rfl | other
      · rfl
      · simp [other]

theorem pathOf_suffix_iff {last : List Char} (free : Free (part :: parts)) (lastFree : '/' ∉ last) :
    ('/' :: last <:+ pathOf (part :: parts)) <-> parts.getLast? = some last := by
  constructor
  · rintro ⟨before, equal⟩
    exact getLast?_of_suffix free lastFree equal.symm
  · intro final
    obtain ⟨others, rfl⟩ := List.getLast?_eq_some_iff.mp final
    refine ⟨part ++ separated '/' others, ?_⟩
    simp [pathOf, separated_append]

theorem drop_eq_iff_suffix (ending : List Char) {n : Nat} (size : ending.length = n) :
    (name.length >= n /\ name.drop (name.length - n) = ending) <-> ending <:+ name := by
  subst size
  rw [suffix_iff_eq_drop]
  constructor
  · rintro ⟨_, equal⟩
    exact equal.symm
  · intro equal
    refine ⟨?_, equal.symm⟩
    have lengths := congrArg List.length equal
    rw [length_drop] at lengths
    omega

theorem ditchTrailing_pathOf_of_ne (free : Free (part :: parts))
    (final : parts.getLast? ≠ some ['.']) :
    ditchTrailing (pathOf (part :: parts)) = pathOf (part :: parts) := by
  refine if_neg fun both => final ?_
  exact (pathOf_suffix_iff free (by decide)).mp ((drop_eq_iff_suffix ['/', '.'] rfl).mp both)

theorem ditchTrailing_pathOf (ne : part ≠ []) (free : Free (part :: parts)) :
    ditchTrailing (pathOf (part :: parts)) =
      if parts.getLast? = some ['.'] then pathOf (part :: parts.dropLast)
      else pathOf (part :: parts) := by
  by_cases final : parts.getLast? = some ['.']
  · have ending : (pathOf (part :: parts)).length >= 2 /\
        (pathOf (part :: parts)).drop ((pathOf (part :: parts)).length - 2) = ['/', '.'] :=
      (drop_eq_iff_suffix ['/', '.'] rfl).mpr ((pathOf_suffix_iff free (by decide)).mpr final)
    rw [ditchTrailing, if_pos final]
    obtain ⟨others, rfl⟩ := List.getLast?_eq_some_iff.mp final
    have whole : pathOf (part :: (others ++ [['.']])) = pathOf (part :: others) ++ ['/', '.'] := by
      simp [pathOf, separated_append]
    have long := length_pos_iff.mpr ne
    have notTwo : (pathOf (part :: (others ++ [['.']]))).length ≠ 2 := by
      rw [whole, length_append, pathOf, length_append]
      simp only [length_cons, length_nil]
      omega
    rw [if_neg notTwo, whole]
    simp
  · rw [ditchTrailing_pathOf_of_ne free final, if_neg final]

def withoutDots (parts : List (List Char)) : List (List Char) :=
  if parts.filter (· ≠ ['.']) = [] then [['.']] else parts.filter (· ≠ ['.'])

theorem dropDots_cases (parts : List (List Char)) (ne : parts ≠ []) :
    dropDots parts = [['.']] /\ parts.filter (· ≠ ['.']) = [] \/
      ∃ first rest, dropDots parts = first :: rest /\ first ≠ ['.'] /\
        parts.filter (· ≠ ['.']) = (first :: rest).filter (· ≠ ['.']) := by
  fun_induction dropDots parts with
  | case1 next parts ih =>
    exact ih (cons_ne_nil _ _)
  | case2 part next parts other => exact Or.inr ⟨part, next :: parts, rfl, other, rfl⟩
  | case3 parts short =>
    rcases eq_nil_or_singleton short with rfl | ⟨part, rfl⟩
    · exact (ne rfl).elim
    · rcases eq_or_ne part ['.'] with rfl | other
      · exact Or.inl ⟨rfl, rfl⟩
      · exact Or.inr ⟨part, [], rfl, other, rfl⟩

theorem dropDots_sublist (parts : List (List Char)) : dropDots parts <:+ parts := by
  fun_induction dropDots parts with
  | case1 next parts ih => exact ih.trans (suffix_cons _ _)
  | case2 | case3 => exact suffix_rfl

theorem ditch_pathOf (ne : parts ≠ []) (free : Free parts) (solid : Solid parts) :
    ditchTrailing (ditchEmbedded (ditchLeading (pathOf parts))) = pathOf (withoutDots parts) := by
  rw [ditchLeading_pathOf free solid]
  have subset := (dropDots_sublist parts).subset
  rcases dropDots_cases parts ne with ⟨single, none⟩ | ⟨first, rest, equal, other, same⟩
  · rw [single, withoutDots, if_pos none]
    decide
  · rw [equal] at subset ⊢
    have free' : Free (first :: rest) := fun piece mem => free piece (subset mem)
    have solid' : Solid (first :: rest) := fun piece mem => solid piece (subset mem)
    have inner : ∀ piece ∈ dropInnerDots rest, piece ∈ rest := by
      intro piece mem
      rw [dropInnerDots_eq] at mem
      rcases mem_append.mp mem with kept | last
      · exact mem_of_mem_filter kept
      · split at last
        · rename_i final
          rw [mem_singleton.mp last]
          exact mem_of_getLast? final
        · cases last
    rw [ditchEmbedded_pathOf free' solid'.tail, ditchTrailing_pathOf solid'.head
      (forall_mem_cons.mpr ⟨free'.head,
        fun piece mem => free'.tail piece (inner piece mem)⟩)]
    have filtered : (first :: rest).filter (· ≠ ['.']) = first :: rest.filter (· ≠ ['.']) :=
      filter_cons_of_pos (by simpa using other)
    rw [withoutDots, same, filtered, if_neg (cons_ne_nil _ _), dropInnerDots_eq]
    by_cases final : rest.getLast? = some ['.']
    · rw [if_pos final, if_pos List.getLast?_concat, dropLast_concat]
    · rw [if_neg final, append_nil, if_neg]
      intro last
      exact absurd (mem_filter.mp (mem_of_getLast? last)).2 (by simp)

/-! ## Parent steps -/

/-- Embedded double dots become empty components.  The slash behind one of them
has been used up, so that the next component is copied whatever it is. -/
def markParents : List (List Char) -> List (List Char)
  | part :: next :: parts =>
    if part = ['.', '.'] then [] :: next :: markParents parts
    else part :: markParents (next :: parts)
  | parts => parts

theorem dropDotDot_append (free : '/' ∉ part) :
    dropDotDot (part ++ rest) = part ++ dropDotDot rest := by
  induction part with
  | nil => rfl
  | cons c part ih =>
    have other : c ≠ '/' := fun same => free (same ▸ mem_cons_self)
    rw [cons_append, dropDotDot.eq_2 _ _ (fun _ slash => (other slash).elim),
      ih fun mem => free (mem_cons_of_mem _ mem)]
    rfl

theorem dropDotDot_component (free : Free (part :: parts))
    (other : part = ['.', '.'] -> parts = []) :
    dropDotDot ('/' :: part ++ separated '/' parts) =
      '/' :: part ++ dropDotDot (separated '/' parts) := by
  have noMatch : ∀ rest, part ++ separated '/' parts ≠ '.' :: '.' :: '/' :: rest := by
    intro rest equal
    obtain ⟨same, more⟩ := eq_of_first free (show '/' ∉ ['.', '.'] by decide) equal
    rw [other same] at more
    exact absurd more.symm (by simp)
  rw [cons_append, dropDotDot.eq_2 _ _ (fun rest _ equal => noMatch rest equal),
    dropDotDot_append free.head]
  rfl

theorem dropDotDot_separated (free : Free parts) :
    dropDotDot (separated '/' parts) = separated '/' (markParents parts) := by
  fun_induction markParents parts with
  | case1 next parts ih =>
    show '/' :: '/' :: dropDotDot (next ++ separated '/' parts) = _
    rw [dropDotDot_append (free next (by simp)), ih free.tail.tail]
    simp
  | case2 part next parts other ih =>
    rw [@separated_cons _ _ part (next :: parts),
      dropDotDot_component free (fun same => (other same).elim), ih free.tail, separated_cons]
  | case3 parts short =>
    rcases eq_nil_or_singleton short with rfl | ⟨part, rfl⟩
    · rfl
    · exact dropDotDot_component free (fun _ => rfl)

theorem dropDotDot_eq_self (without : hasSlashDotDotSlash name = false) :
    dropDotDot name = name := by
  fun_induction hasSlashDotDotSlash name with
  | case1 => cases without
  | case2 c rest other ih => rw [dropDotDot.eq_2 _ _ other, ih without]
  | case3 => rfl

theorem replaceEmbedded_eq {name : List Char} : replaceEmbedded name = dropDotDot name := by
  unfold replaceEmbedded
  split
  · rfl
  · rename_i skip
    cases embedded : hasSlashDotDotSlash name with
    | false => exact (dropDotDot_eq_self embedded).symm
    | true =>
      have short := not_lt.mp fun long => skip ⟨long, embedded⟩
      match name, embedded, short with
      | [c], embedded, _ => simp [hasSlashDotDotSlash] at embedded
      | [c, d], embedded, _ => simp [hasSlashDotDotSlash] at embedded
      | [c, d, e], embedded, _ => simp [hasSlashDotDotSlash] at embedded

theorem replaceEmbedded_pathOf (free : Free (part :: parts)) :
    replaceEmbedded (pathOf (part :: parts)) = pathOf (part :: markParents parts) := by
  rw [replaceEmbedded_eq, pathOf, dropDotDot_append free.head, dropDotDot_separated free.tail]
  rfl

/-- Double dots at the end become a parent step, with nothing behind it. -/
def closeParents (parts : List (List Char)) : List (List Char) :=
  if parts.getLast? = some ['.', '.'] then parts.dropLast ++ [[], []] else parts

theorem replaceTrailing_pathOf (free : Free (part :: parts)) :
    replaceTrailing (pathOf (part :: parts)) = pathOf (part :: closeParents parts) := by
  have ending : ((pathOf (part :: parts)).length >= 3 /\
      (pathOf (part :: parts)).drop ((pathOf (part :: parts)).length - 3) = ['/', '.', '.']) <->
        parts.getLast? = some ['.', '.'] :=
    (drop_eq_iff_suffix ['/', '.', '.'] rfl).trans (pathOf_suffix_iff free (by decide))
  unfold replaceTrailing closeParents
  by_cases final : parts.getLast? = some ['.', '.']
  · rw [if_pos (ending.mpr final)]
    obtain ⟨others, rfl⟩ := List.getLast?_eq_some_iff.mp final
    have whole : pathOf (part :: (others ++ [['.', '.']])) =
        pathOf (part :: others) ++ ['/', '.', '.'] := by
      simp [pathOf, separated_append]
    have size : (pathOf (part :: others) ++ ['/', '.', '.']).length - 2 =
        (pathOf (part :: others) ++ ['/']).length := by
      rw [length_append, length_append]
      rfl
    have shape : pathOf (part :: others) ++ ['/', '.', '.'] =
        (pathOf (part :: others) ++ ['/']) ++ ['.', '.'] := by simp
    rw [whole, size, shape, take_left]
    simp [pathOf, separated_append]
  · rw [if_neg (fun both => final (ending.mp both)), if_neg final]

theorem replaceLeading_pathOf (free : Free (part :: parts)) :
    replaceLeading (pathOf (part :: parts)) =
      if part = ['.', '.'] /\ parts ≠ [] then pathOf ([] :: parts) else pathOf (part :: parts) := by
  by_cases leading : part = ['.', '.'] /\ parts ≠ []
  · rcases leading with ⟨rfl, ne⟩
    cases parts with
    | nil => exact (ne rfl).elim
    | cons next parts =>
      refine if_pos ⟨?_, rfl⟩
      simp [pathOf]
  · rw [if_neg leading]
    refine if_neg fun both => leading ?_
    have start : pathOf (part :: parts) = ['.', '.'] ++ '/' :: (pathOf (part :: parts)).drop 3 := by
      have whole := take_append_drop 3 (pathOf (part :: parts))
      rw [both.2] at whole
      exact whole.symm
    obtain ⟨same, more⟩ := eq_of_first free (by decide) start
    refine ⟨same, fun nil => ?_⟩
    rw [nil] at more
    exact absurd more.symm (by simp)

theorem Free.of_mem {others : List (List Char)}
    (inside : ∀ piece ∈ others, piece = [] \/ piece ∈ parts) (free : Free parts) :
    Free others := by
  intro piece mem
  rcases inside piece mem with rfl | inside
  · exact not_mem_nil
  · exact free piece inside

variable {piece : List Char}

theorem mem_markParents (mem : piece ∈ markParents parts) : piece = [] \/ piece ∈ parts := by
  fun_induction markParents parts with
  | case1 next parts ih =>
    rcases mem_cons.mp mem with rfl | later
    · exact Or.inl rfl
    · rcases mem_cons.mp later with rfl | last
      · exact Or.inr (by simp)
      · exact (ih last).imp_right fun inside => by simp [inside]
  | case2 part next parts other ih =>
    rcases mem_cons.mp mem with rfl | later
    · exact Or.inr (by simp)
    · exact (ih later).imp_right fun inside => mem_cons_of_mem _ inside
  | case3 => exact Or.inr mem

theorem Free.markParents (free : Free parts) : Free (markParents parts) :=
  free.of_mem fun _ => mem_markParents

theorem mem_closeParents (mem : piece ∈ closeParents parts) : piece = [] \/ piece ∈ parts := by
  unfold closeParents at mem
  split at mem
  · rcases mem_append.mp mem with inside | last
    · exact Or.inr (dropLast_subset _ inside)
    · left
      simpa using last
  · exact Or.inr mem

theorem Free.closeParents (free : Free parts) : Free (closeParents parts) :=
  free.of_mem fun _ => mem_closeParents

theorem closeParents_ne_nil (ne : parts ≠ []) : closeParents parts ≠ [] := by
  unfold closeParents
  split
  · simp
  · exact ne

theorem markParents_ne_nil (ne : parts ≠ []) : markParents parts ≠ [] := by
  fun_induction markParents parts with
  | case1 | case2 => exact cons_ne_nil _ _
  | case3 => exact ne

/-- The components of the name the passes over the parent steps produce. -/
def amigaParts (part : List Char) (parts : List (List Char)) : List (List Char) :=
  if parts = [] then
    if part = ['.', '.'] then [[], []] else if part = ['.'] then [[]] else [part]
  else (if part = ['.', '.'] then [] else part) :: closeParents (markParents parts)

theorem mem_amigaParts (mem : piece ∈ amigaParts part parts) :
    piece = [] \/ piece ∈ part :: parts := by
  unfold amigaParts at mem
  split_ifs at mem
  · simpa using Or.inl mem
  · exact Or.inl (mem_singleton.mp mem)
  · exact Or.inr (mem_singleton.mp mem ▸ mem_cons_self)
  all_goals
    rcases mem_cons.mp mem with rfl | later
    · simp
    · rcases mem_closeParents later with nil | marked
      · exact Or.inl nil
      · exact (mem_markParents marked).imp_right (mem_cons_of_mem _)

theorem Free.amigaParts (free : Free (part :: parts)) : Free (amigaParts part parts) :=
  free.of_mem fun _ => mem_amigaParts

theorem translateParents_pathOf (free : Free (part :: parts)) :
    translateParents (pathOf (part :: parts)) = pathOf (amigaParts part parts) := by
  have partFree := free.head
  have freeMarked : Free (part :: markParents parts) :=
    forall_mem_cons.mpr ⟨partFree, free.tail.markParents⟩
  have freeClosed : Free (part :: closeParents (markParents parts)) :=
    forall_mem_cons.mpr ⟨partFree, free.tail.markParents.closeParents⟩
  rw [translateParents, replaceEmbedded_pathOf free, replaceTrailing_pathOf freeMarked,
    replaceLeading_pathOf freeClosed]
  unfold amigaParts
  by_cases nil : parts = []
  · subst nil
    rw [if_neg (fun both => both.2 rfl)]
    show replaceWhole (part ++ []) = _
    rw [append_nil, replaceWhole]
    by_cases dotDot : part = ['.', '.']
    · subst dotDot
      rfl
    · rw [if_neg dotDot]
      split
      · rfl
      · exact (append_nil part).symm
  · rw [if_neg nil]
    have more := closeParents_ne_nil (markParents_ne_nil nil)
    -- the name contains a slash, so that it is neither of the two
    have whole : ∀ {first : List Char},
        replaceWhole (pathOf (first :: closeParents (markParents parts))) =
          pathOf (first :: closeParents (markParents parts)) := by
      intro first
      have slash : '/' ∈ pathOf (first :: closeParents (markParents parts)) := by
        cases shape : closeParents (markParents parts) with
        | nil => exact (more shape).elim
        | cons next rest => simp [pathOf]
      generalize pathOf (first :: closeParents (markParents parts)) = name at slash ⊢
      have notDotDot : name ≠ ['.', '.'] := by
        rintro rfl
        exact absurd slash (by decide)
      have notDot : name ≠ ['.'] := by
        rintro rfl
        exact absurd slash (by decide)
      rw [replaceWhole, if_neg notDotDot, if_neg notDot]
    by_cases dotDot : part = ['.', '.']
    · rw [if_pos ⟨dotDot, more⟩, if_pos dotDot, whole]
    · rw [if_neg (fun both => dotDot both.1), if_neg dotDot, whole]

end Clib4.Unistd
