import Clib4.Unistd.PathWalk

namespace Clib4.Unistd

open Foundation List

/-!
# From Amiga to Unix and back

Which Amiga paths come back when they are translated to Unix form and the result
to Amiga form.
-/

/-- A name that is nothing but a name on either side. -/
structure Ordinary (name : List Char) : Prop where
  ne_nil : name ≠ []
  noSlash : '/' ∉ name
  noColon : ':' ∉ name
  ne_dot : name ≠ ['.']
  ne_dotDot : name ≠ ['.', '.']

/-- The Amiga paths in question: absolute ones, and those that go up some steps
and then down. -/
inductive AmigaPath
  | absolute (vol : List Char) (names : List (List Char))
  | relative (ups : Nat) (names : List (List Char))

namespace AmigaPath

def text : AmigaPath -> List Char
  | absolute vol names => vol ++ ':' :: pathOf names
  | relative ups names => List.replicate ups '/' ++ pathOf names

/-- The paths in Unix form that have Amiga names of their own. -/
def Mapped (vol : List Char) (names : List (List Char)) : Prop :=
  vol = "tmp".toList \/ vol = "dev".toList /\ (names.head? = some "null".toList \/
      names.head? = some "random".toList \/ names.head? = some "urandom".toList)

/-- Everything in the path is a name, and its volume is not specially mapped. -/
def WellFormed : AmigaPath -> Prop
  | absolute vol names =>
    vol ≠ [] /\ '/' ∉ vol /\ ':' ∉ vol /\ ¬ Mapped vol names /\
      ∀ name ∈ names, Ordinary name
  | relative _ names => ∀ name ∈ names, Ordinary name

/-- The Unix form of the path, with the room the translation asks for, fits the
buffer. -/
def Fits : AmigaPath -> Prop
  | absolute vol names => vol.length + (pathOf names).length + 2 < pathMax
  | relative ups names => 3 * ups + (pathOf names).length < pathMax

end AmigaPath

variable {names : List (List Char)}

def AllOrdinary (names : List (List Char)) : Prop := ∀ name ∈ names, Ordinary name

theorem AllOrdinary.free (plain : AllOrdinary names) : Free names :=
  fun name mem => (plain name mem).noSlash

theorem AllOrdinary.solid (plain : AllOrdinary names) : Solid names :=
  fun name mem => (plain name mem).ne_nil

theorem not_colon_pathOf (plain : AllOrdinary names) : ':' ∉ pathOf names := by
  intro colon
  rcases mem_pathOf colon with slash | ⟨name, mem, inside⟩
  · exact absurd slash (by decide)
  · exact (plain name mem).noColon inside

/-! ## Names without parent steps -/

variable {parts : List (List Char)}

theorem markParents_eq_self (absent : ['.', '.'] ∉ parts) : markParents parts = parts := by
  fun_induction markParents parts with
  | case1 => exact (absent mem_cons_self).elim
  | case2 part next parts other ih =>
    rw [ih fun mem => absent (mem_cons_of_mem _ mem)]
  | case3 => rfl

theorem stepParts_eq_self (absent : ['.', '.'] ∉ parts) : stepParts parts = parts := by
  rw [stepParts, markParents_eq_self absent, closeParents, if_neg]
  exact fun last => absent (mem_of_getLast? last)

theorem dotDot_not_mem (plain : AllOrdinary names) : ['.', '.'] ∉ names :=
  fun mem => (plain _ mem).ne_dotDot rfl

theorem translateParents_ordinary (plain : AllOrdinary names) :
    translateParents (pathOf names) = pathOf names := by
  cases names with
  | nil => rfl
  | cons first rest =>
    have firstOrdinary := plain first mem_cons_self
    have absent : ['.', '.'] ∉ rest := fun mem =>
      dotDot_not_mem plain (mem_cons_of_mem _ mem)
    rw [translateParents_pathOf plain.free, amigaParts]
    by_cases nil : rest = []
    · rw [if_pos nil, if_neg firstOrdinary.ne_dotDot, if_neg firstOrdinary.ne_dot, nil]
    · rw [if_neg nil, if_neg firstOrdinary.ne_dotDot]
      exact congrArg (fun parts => pathOf (first :: parts)) (stepParts_eq_self absent)

theorem hasDoubleSlash_append {start : List Char} (startFree : '/' ∉ start) (rest : List Char) :
    hasDoubleSlash (start ++ rest) = hasDoubleSlash rest := by
  induction start with
  | nil => rfl
  | cons c start ih =>
    have other : c ≠ '/' := fun same => startFree (same ▸ mem_cons_self)
    rw [cons_append, hasDoubleSlash.eq_2 _ _ (fun _ slash => (other slash).elim)]
    exact ih fun mem => startFree (mem_cons_of_mem _ mem)

theorem hasDoubleSlash_separated (free : Free parts)
    (solid : Solid parts) : hasDoubleSlash (separated '/' parts) = false := by
  induction parts with
  | nil => rfl
  | cons part parts ih =>
    rw [<- ih free.tail solid.tail, <- hasDoubleSlash_append free.head (separated '/' parts)]
    cases part with
    | nil => exact (solid.head rfl).elim
    | cons c part =>
      have other : c ≠ '/' := fun same => free.head (same ▸ mem_cons_self)
      exact hasDoubleSlash.eq_2 _ _ (fun _ _ equal => other (List.cons.inj equal).1)

theorem hasDoubleSlash_pathOf (free : Free parts)
    (solid : Solid parts) : hasDoubleSlash (pathOf parts) = false := by
  cases parts with
  | nil => rfl
  | cons part parts =>
    rw [pathOf, hasDoubleSlash_append free.head]
    exact hasDoubleSlash_separated free.tail solid.tail

/-! ## Absolute paths from Unix to Amiga -/

theorem dropInnerDots_eq_self (absent : ['.'] ∉ parts) : dropInnerDots parts = parts := by
  have kept : parts.filter (· ≠ ['.']) = parts := by
    apply filter_eq_self.mpr
    intro part mem
    simpa using fun same : part = ['.'] => absent (same ▸ mem)
  rw [dropInnerDots_eq, kept, if_neg, append_nil]
  exact fun last => absent (mem_of_getLast? last)

theorem ditch_absolute (ne : parts ≠ []) (free : Free parts)
    (solid : Solid parts) (last : (dropInnerDots parts).getLast? ≠ some ['.'])
    (inner : Free (dropInnerDots parts)) :
    ditchTrailing (ditchEmbedded (ditchLeading (stripTrailing (stripNeighbors
      (separated '/' parts))))) = separated '/' (dropInnerDots parts) := by
  have neighbors : stripNeighbors (separated '/' parts) = separated '/' parts := by
    unfold stripNeighbors
    rw [hasDoubleSlash_separated free solid]
    exact if_neg fun both => by cases both.2
  have trailing : stripTrailing (separated '/' parts) = separated '/' parts := by
    cases parts with
    | nil => exact (ne rfl).elim
    | cons part parts =>
      have kept := rdropWhile_of_getLast? (getLast?_append_separated
        (fun slash => free.head (mem_of_getLast? slash)) free.tail solid.tail)
      exact congrArg (List.cons '/') kept
  have leading : ditchLeading (separated '/' parts) = separated '/' parts := by
    cases parts with
    | nil | cons part parts => rfl
  rw [neighbors, trailing, leading, ditchEmbedded_eq, dropSlashDot_separated free solid]
  refine @ditchTrailing_pathOf_of_ne [] _ ?_ last
  exact forall_mem_cons.mpr ⟨not_mem_nil, inner⟩

/-- The volume and the names an absolute path is translated to. -/
def mapVolume (vol : List Char) (names : List (List Char)) : List Char × List (List Char) :=
  if vol = "tmp".toList then ("T".toList, names)
  else if vol = "dev".toList /\ names.head? = some "null".toList then ("NIL".toList, [])
  else if vol = "dev".toList /\ (names.head? = some "random".toList \/
      names.head? = some "urandom".toList) then ("RANDOM".toList, [])
  else (vol, names)

theorem begins_with_iff (free : Free parts) {words : List (List Char)}
    (wordsFree : Free words) {start : List Char} (same : separated '/' words = start) {n : Nat}
    (size : start.length = n) :
    ((separated '/' parts).take n = start /\
      ((separated '/' parts).length = n \/ (separated '/' parts)[n]? = some '/')) <->
      words <+: parts := by
  subst same
  rw [<- separated_prefix_iff free wordsFree]
  constructor
  · rintro ⟨start, next⟩
    refine ⟨(separated '/' parts).drop n, ?_, ?_⟩
    · rw [<- start, take_append_drop]
    · rcases next with short | slash
      · left
        exact drop_eq_nil_of_le short.le
      · right
        rw [List.head?_drop]
        exact slash
  · rintro ⟨after, equal, starts⟩
    rw [equal]
    refine ⟨by rw [<- size, take_left], ?_⟩
    rcases starts with rfl | slash
    · left
      rw [append_nil, size]
    · right
      rw [List.getElem?_append_right size.le, size, Nat.sub_self, <- List.head?_eq_getElem?]
      exact slash

theorem prefix_pair_iff {first second vol : List Char} :
    [first, second] <+: vol :: names <-> vol = first /\ names.head? = some second := by
  rw [cons_prefix_cons]
  cases names with
  | nil => simp
  | cons name names =>
    rw [cons_prefix_cons, List.head?_cons, Option.some.injEq]
    exact ⟨fun ⟨same, next, _⟩ => ⟨same.symm, next.symm⟩,
      fun ⟨same, next⟩ => ⟨same.symm, next.symm, nil_prefix⟩⟩

theorem drop_separated {vol : List Char} {names : List (List Char)} :
    (separated '/' (vol :: names)).drop (vol.length + 2) = pathOf names := by
  have front : separated '/' (vol :: names) = ('/' :: vol) ++ separated '/' names := rfl
  rw [front, show vol.length + 2 = ('/' :: vol).length + 1 from rfl,
    <- drop_drop, drop_left]
  cases names with
  | nil | cons name names => rfl

variable {vol : List Char}

theorem translateAbsolute_separated (free : Free (vol :: names)) :
    translateAbsolute (separated '/' (vol :: names)) =
      (mapVolume vol names).1 ++ ':' :: pathOf (mapVolume vol names).2 := by
  have tmp : _ <-> "tmp".toList = vol :=
    (begins_with_iff free (by unfold Free; decide)
      (show separated '/' ["tmp".toList] = "/tmp".toList by decide)
      (show "/tmp".toList.length = 4 by decide)).trans
      (cons_prefix_cons.trans (and_iff_left nil_prefix))
  rw [@or_comm _ (_ = some '/')] at tmp
  have null := (begins_with_iff free (by unfold Free; decide)
    (show separated '/' ["dev".toList, "null".toList] = "/dev/null".toList by decide)
    (show "/dev/null".toList.length = 9 by decide)).trans
    prefix_pair_iff
  have random := (begins_with_iff free (by unfold Free; decide)
    (show separated '/' ["dev".toList, "random".toList] = "/dev/random".toList by decide)
    (show "/dev/random".toList.length = 11 by decide)).trans
    prefix_pair_iff
  have urandom := (begins_with_iff free (by unfold Free; decide)
    (show separated '/' ["dev".toList, "urandom".toList] = "/dev/urandom".toList by decide)
    (show "/dev/urandom".toList.length = 12 by decide)).trans prefix_pair_iff
  have either := (or_congr random urandom).trans and_or_left.symm
  unfold translateAbsolute mapVolume
  by_cases isTmp : vol = "tmp".toList
  · subst isTmp
    cases names with
    | nil | cons name names => rfl
  rw [if_neg (fun both => isTmp (tmp.mp both).symm), if_neg isTmp]
  by_cases isNull : vol = "dev".toList /\ names.head? = some "null".toList
  · rw [if_pos (null.mpr isNull), if_pos isNull]
    rfl
  rw [if_neg (fun both => isNull (null.mp both)), if_neg isNull]
  by_cases isRandom : vol = "dev".toList /\ (names.head? = some "random".toList \/
      names.head? = some "urandom".toList)
  · rw [if_pos (either.mpr isRandom), if_pos isRandom]
    rfl
  rw [if_neg (fun both => isRandom (either.mp both)), if_neg isRandom]
  have taken : ((separated '/' (vol :: names)).drop 1).takeWhile (· ≠ '/') = vol := by
    show (vol ++ separated '/' names).takeWhile (· ≠ '/') = vol
    rw [takeWhile_append_of_pos]
    · cases names with
      | nil | cons name names => simp
    · intro c mem
      simpa using fun same : c = '/' => free.head (same ▸ mem)
  rw [taken]
  dsimp only
  rw [drop_separated]

theorem splitVolume_colon {vol rest : List Char} (noColon : ':' ∉ vol) :
    splitVolume (vol ++ ':' :: rest) = (vol ++ [':'], rest) := by
  have taken : (vol ++ ':' :: rest).takeWhile (· ≠ ':') = vol := by
    rw [takeWhile_append_of_pos]
    · simp
    · intro c mem
      simpa using fun same : c = ':' => noColon (same ▸ mem)
  unfold splitVolume
  rw [taken]
  simp

variable {name : List Char}

theorem reduceSlashes_eq_self (single : hasDoubleSlash name = false) :
    reduceSlashes name = name := by
  unfold reduceSlashes
  rw [single]
  exact if_neg fun both => by cases both.2

theorem mapVolume_spec (noSlash : '/' ∉ vol) (noColon : ':' ∉ vol)
    (plain : AllOrdinary names) :
    '/' ∉ (mapVolume vol names).1 /\ ':' ∉ (mapVolume vol names).1 /\
      AllOrdinary (mapVolume vol names).2 := by
  unfold mapVolume
  split_ifs
  · exact ⟨show '/' ∉ "T".toList by decide, show ':' ∉ "T".toList by decide, plain⟩
  · exact ⟨by decide, by decide, fun name mem => by cases mem⟩
  · exact ⟨by decide, by decide, fun name mem => by cases mem⟩
  · exact ⟨noSlash, noColon, plain⟩

theorem translate_absolute {path vol : List Char} (fits : path.length < pathMax)
    (pathColon : ':' ∉ path) (noSlash : '/' ∉ vol) (noColon : ':' ∉ vol)
    (plain : AllOrdinary names)
    (passes : ditchTrailing (ditchEmbedded (ditchLeading (stripTrailing (stripNeighbors path)))) =
      separated '/' (vol :: names)) :
    ∃ root, translateUnixToAmigaPathName path =
      .ok ⟨(mapVolume vol names).1 ++ ':' :: pathOf (mapVolume vol names).2, root⟩ := by
  obtain ⟨mappedSlash, mappedColon, mappedOrdinary⟩ := mapVolume_spec noSlash noColon plain
  have free : Free (vol :: names) :=
    forall_mem_cons.mpr ⟨noSlash, plain.free⟩
  have single : hasDoubleSlash ((mapVolume vol names).1 ++ [':'] ++
      pathOf (mapVolume vol names).2) = false := by
    rw [hasDoubleSlash_append (by simp [mappedSlash])]
    exact hasDoubleSlash_pathOf mappedOrdinary.free
      mappedOrdinary.solid
  unfold translateUnixToAmigaPathName
  rw [if_neg pathColon, if_neg (not_le.mpr fits), passes]
  dsimp only
  rw [if_pos (show (separated '/' (vol :: names)).head? = some '/' from rfl),
    translateAbsolute_separated free, splitVolume_colon mappedColon]
  rw [if_neg (by simp [mappedSlash]), if_neg (not_colon_pathOf mappedOrdinary),
    translateParents_ordinary mappedOrdinary]
  refine ⟨_, congrArg (fun name => Except.ok (Translated.mk name _)) ?_⟩
  refine (reduceSlashes_eq_self single).trans ?_
  rw [append_assoc]
  rfl

/-! ## Amiga to Unix -/

theorem translateEmbedded_eq (single : hasDoubleSlash name = false) {start : Nat}
    (fits : start + name.length < pathMax) : translateEmbedded start name = .ok name := by
  fun_induction hasDoubleSlash name generalizing start with
  | case1 => cases single
  | case2 c rest other ih =>
    rw [length_cons] at fits
    have notBoth : ¬ (c = '/' /\ rest.head? = some '/') := by
      rintro ⟨slash, next⟩
      cases rest with
      | nil => cases next
      | cons d rest => exact other rest slash (by rw [Option.some.inj next])
    rw [translateEmbedded, if_neg notBoth, if_neg (by omega), ih single (by omega)]
    rfl
  | case3 => rfl

theorem translateEmbedded_long (ne : name ≠ []) {start : Nat}
    (long : pathMax <= start + name.length) : translateEmbedded start name = .error .nameTooLong := by
  induction name generalizing start with
  | nil => exact (ne rfl).elim
  | cons c rest ih =>
    rw [length_cons] at long
    rw [translateEmbedded]
    split_ifs with both full full
    · rfl
    · have more : rest ≠ [] := fun nil => by simp [nil] at both
      rw [ih more (by omega)]
      rfl
    · rfl
    · have more : rest ≠ [] := fun nil => by
        rw [nil, length_nil] at long
        omega
      rw [ih more (by omega)]
      rfl

theorem translateLeading_ups (ne : name ≠ []) (relative : name.head? ≠ some '/')
    (ups start : Nat) (fits : start + 3 * ups < pathMax) :
    translateLeading start (List.replicate ups '/' ++ name) =
      .ok ((List.replicate ups ['.', '.', '/']).flatten, name) := by
  induction ups generalizing start with
  | zero =>
    cases name with
    | nil => exact (ne rfl).elim
    | cons c name =>
      unfold translateLeading
      split
      · rename_i equal
        cases equal
        exact (relative rfl).elim
      · rfl
  | succ ups ih =>
    rw [replicate_succ, cons_append, translateLeading, if_neg (by omega),
      if_neg (by simp [ne]), ih (start + 3) (by omega)]
    rfl

theorem translateLeading_long (name : List Char) {ups start : Nat} (room : start < pathMax)
    (long : pathMax <= start + 3 * ups) :
    translateLeading start (List.replicate ups '/' ++ name) = .error .nameTooLong := by
  induction ups generalizing start with
  | zero => omega
  | succ ups ih =>
    rw [replicate_succ, cons_append, translateLeading]
    split_ifs with full nothing
    · rfl
    · have none : ups = 0 := by simpa using (append_eq_nil_iff.mp nothing).1
      omega
    · rw [ih (by omega) (by omega)]
      rfl

theorem translateLeading_only_ups (ups start : Nat) (fits : start + 3 * (ups + 1) < pathMax) :
    translateLeading start (List.replicate (ups + 1) '/') =
      .ok ((List.replicate ups ['.', '.', '/']).flatten ++ ['.', '.'], []) := by
  induction ups generalizing start with
  | zero =>
    show translateLeading start ['/'] = _
    rw [translateLeading, if_neg (by omega)]
    rfl
  | succ ups ih =>
    rw [replicate_succ, translateLeading, if_neg (by omega), ih (start + 3) (by omega)]
    rfl

theorem flatten_ups (ne : parts ≠ []) (ups : Nat) :
    (List.replicate ups ['.', '.', '/']).flatten ++ pathOf parts =
      pathOf (List.replicate ups ['.', '.'] ++ parts) := by
  induction ups with
  | zero => rfl
  | succ ups ih =>
    rw [replicate_succ, flatten_cons, append_assoc, ih]
    show _ = pathOf (['.', '.'] :: (List.replicate ups ['.', '.'] ++ parts))
    cases shape : List.replicate ups ['.', '.'] ++ parts with
    | nil => exact (ne (append_eq_nil_iff.mp shape).2).elim
    | cons next rest => rfl

theorem length_flatten_ups (ups : Nat) :
    (List.replicate ups ['.', '.', '/']).flatten.length = 3 * ups := by
  simp [Nat.mul_comm]

theorem pathOf_ne_nil (ne : names ≠ []) (solid : Solid names) : pathOf names ≠ [] := by
  cases names with
  | nil => exact (ne rfl).elim
  | cons name names =>
    intro nil
    exact solid.head (append_eq_nil_iff.mp nil).1

theorem head?_pathOf (free : Free names) (solid : Solid names) :
    (pathOf names).head? ≠ some '/' := by
  cases names with
  | nil => exact fun absurd => by cases absurd
  | cons name names => exact head?_pathOf_cons solid.head free

theorem translateSteps_relative (ups : Nat) (plain : AllOrdinary names)
    (fits : 3 * ups + (pathOf names).length < pathMax) :
    translateSteps (List.replicate ups '/' ++ pathOf names) =
      .ok (pathOf (List.replicate ups ['.', '.'] ++ names)) := by
  have free := plain.free
  have solid := plain.solid
  unfold translateSteps
  by_cases nil : names = []
  · subst nil
    cases ups with
    | zero => rfl
    | succ ups =>
      show (translateLeading 0 (List.replicate (ups + 1) '/' ++ []) >>= _) = _
      rw [append_nil, translateLeading_only_ups ups 0 (by omega)]
      show Except.ok (((List.replicate ups ['.', '.', '/']).flatten ++ ['.', '.']) ++ []) = _
      have joined := flatten_ups (cons_ne_nil ['.', '.'] []) ups
      rw [append_nil, append_nil]
      show Except.ok ((List.replicate ups ['.', '.', '/']).flatten ++ pathOf [['.', '.']]) = _
      rw [joined, replicate_succ']
  · rw [translateLeading_ups (pathOf_ne_nil nil solid) (head?_pathOf free solid) ups 0 (by omega)]
    show (translateEmbedded (List.replicate ups ['.', '.', '/']).flatten.length (pathOf names) >>=
      fun embedded => pure ((List.replicate ups ['.', '.', '/']).flatten ++ embedded)) = _
    rw [translateEmbedded_eq (hasDoubleSlash_pathOf free solid)
      (by rw [length_flatten_ups]; omega), <- flatten_ups nil ups]
    rfl

theorem translateSteps_long {ups : Nat} (plain : AllOrdinary names)
    (long : pathMax <= 3 * ups + (pathOf names).length) :
    translateSteps (List.replicate ups '/' ++ pathOf names) = .error .nameTooLong := by
  unfold translateSteps
  by_cases steps : pathMax <= 3 * ups
  · rw [translateLeading_long _ (by decide) (by omega)]
    rfl
  · have ne : pathOf names ≠ [] := fun nil => by
      rw [nil, length_nil] at long
      omega
    rw [translateLeading_ups ne (head?_pathOf plain.free plain.solid) ups 0 (by omega)]
    show (translateEmbedded (List.replicate ups ['.', '.', '/']).flatten.length (pathOf names) >>=
      fun embedded => pure ((List.replicate ups ['.', '.', '/']).flatten ++ embedded)) = _
    rw [translateEmbedded_long ne (by rw [length_flatten_ups]; exact long)]
    rfl

/-! ## Steps up are not removed -/

theorem components_ups {ups : Nat} (plain : AllOrdinary names) :
    components (List.replicate ups '/' ++ pathOf names) =
      List.replicate ups [] ++ if names = [] then [[]] else names := by
  induction ups with
  | zero =>
    by_cases nil : names = []
    · rw [nil]
      rfl
    · rw [if_neg nil]
      exact components_pathOf nil plain.free
  | succ ups ih =>
    have shape : List.replicate (ups + 1) '/' ++ pathOf names =
        [] ++ '/' :: (List.replicate ups '/' ++ pathOf names) := rfl
    rw [components] at ih ⊢
    rw [shape, splitOn_append_cons, ih]
    rfl

variable {ups : Nat}

theorem no_name_before_ups {before after : List (List Char)} {part : List Char}
    (ne : part ≠ []) (solid : Solid names)
    (equal : List.replicate ups [] ++ (if names = [] then [[]] else names) =
      before ++ part :: [] :: after) : False := by
  induction ups generalizing before with
  | zero =>
    rw [replicate_zero, nil_append] at equal
    split at equal
    · have size := congrArg List.length equal
      simp only [length_cons, length_nil, length_append] at size
      omega
    · exact solid [] (equal ▸ by simp) rfl
  | succ ups ih =>
    cases before with
    | nil => exact ne (List.cons.inj equal).1.symm
    | cons first before => exact ih (List.cons.inj equal).2

theorem not_colon_ups {ups : Nat} (plain : AllOrdinary names) :
    ':' ∉ List.replicate ups '/' ++ pathOf names := by
  intro colon
  rcases mem_append.mp colon with up | name
  · exact absurd (eq_of_mem_replicate up) (by decide)
  · exact not_colon_pathOf plain name

theorem stripDoubleSlash_ups {ups : Nat} (plain : AllOrdinary names) :
    stripDoubleSlash (List.replicate ups '/' ++ pathOf names) =
      List.replicate ups '/' ++ pathOf names := by
  unfold stripDoubleSlash
  cases (List.replicate ups '/' ++ pathOf names).length with
  | zero => rfl
  | succ fuel =>
    rw [stripDoubleSlashFrom]
    split
    · rfl
    · rename_i start found
      rcases components_removeParentStep found with ⟨_, before, part, after, ne, _, old, _⟩
      rw [directoryPart_of_not_colon (not_colon_ups plain), components_ups plain] at old
      exact (no_name_before_ups ne plain.solid old).elim

/-! ## Relative paths -/

def unixSide (ups : Nat) (names : List (List Char)) : List (List Char) :=
  if ups = 0 /\ names = [] then [['.']] else List.replicate ups ['.', '.'] ++ names

/-- Without a volume it is the translation of the steps that decides. -/
theorem translate_to_unix_steps {device : Option (List Char)} {ups : Nat}
    (plain : AllOrdinary names) (short : ups + (pathOf names).length < pathMax)
    (some : ¬ (ups = 0 /\ names = [])) :
    translateAmigaToUnixPathName device (List.replicate ups '/' ++ pathOf names) =
      translateSteps (List.replicate ups '/' ++ pathOf names) := by
  have ne : List.replicate ups '/' ++ pathOf names ≠ [] := by
    intro nil
    obtain ⟨noUps, noNames⟩ := append_eq_nil_iff.mp nil
    refine some ⟨by simpa using noUps, ?_⟩
    by_contra some
    exact pathOf_ne_nil some plain.solid noNames
  unfold translateAmigaToUnixPathName
  rw [if_neg (not_le.mpr (by rw [length_append, length_replicate]; exact short)),
    stripDoubleSlash_ups plain, ite_self, if_neg ne,
    splitVolume_of_not_colon (not_colon_ups plain)]
  dsimp only
  cases translateSteps (List.replicate ups '/' ++ pathOf names) <;> rfl

theorem translate_to_unix_relative {device : Option (List Char)} {ups : Nat}
    (plain : AllOrdinary names) (fits : 3 * ups + (pathOf names).length < pathMax) :
    translateAmigaToUnixPathName device (List.replicate ups '/' ++ pathOf names) =
      .ok (pathOf (unixSide ups names)) := by
  by_cases empty : ups = 0 /\ names = []
  · rw [unixSide, empty.1, empty.2]
    rfl
  · rw [translate_to_unix_steps plain (by omega) empty, translateSteps_relative ups plain fits,
      unixSide, if_neg empty]

theorem remaining_unixSide (ups : Nat) (plain : AllOrdinary names) :
    remaining (pathOf (unixSide ups names)) = unixSide ups names := by
  unfold unixSide
  by_cases empty : ups = 0 /\ names = []
  · rw [if_pos empty]
    decide
  · rw [if_neg empty]
    have ne : List.replicate ups ['.', '.'] ++ names ≠ [] := by
      intro nil
      obtain ⟨noUps, noNames⟩ := append_eq_nil_iff.mp nil
      exact empty ⟨by simpa using noUps, noNames⟩
    have free : Free (List.replicate ups ['.', '.'] ++ names) := by
      intro part mem
      rcases mem_append.mp mem with up | name
      · rw [eq_of_mem_replicate up]
        decide
      · exact plain.free part name
    have steps : unixSteps (pathOf (List.replicate ups ['.', '.'] ++ names)) =
        List.replicate ups ['.', '.'] ++ names := by
      rw [unixSteps, components_pathOf ne free]
      apply filter_eq_self.mpr
      intro part mem
      apply decide_eq_true
      rcases mem_append.mp mem with up | name
      · rw [eq_of_mem_replicate up]
        decide
      · exact ⟨(plain part name).ne_nil, (plain part name).ne_dot⟩
    rw [remaining, steps, if_neg ne]

theorem length_unixSide (ups : Nat) (fits : 3 * ups + (pathOf names).length < pathMax) :
    (pathOf (unixSide ups names)).length < pathMax := by
  unfold unixSide
  by_cases nil : names = []
  · subst nil
    cases ups with
    | zero => decide
    | succ ups =>
      rw [if_neg (by simp), append_nil, replicate_succ',
        <- flatten_ups (cons_ne_nil _ _), length_append, length_flatten_ups]
      show 3 * ups + 2 < pathMax
      omega
  · rw [if_neg (fun both => nil both.2), <- flatten_ups nil, length_append, length_flatten_ups]
    exact fits

theorem unixSide_spec (ups : Nat) (plain : AllOrdinary names) :
    ∀ part ∈ unixSide ups names, '/' ∉ part /\ part ≠ [] /\ ':' ∉ part := by
  intro part mem
  unfold unixSide at mem
  split at mem
  · rw [mem_singleton.mp mem]
    decide
  · rcases mem_append.mp mem with up | name
    · rw [eq_of_mem_replicate up]
      decide
    · have here := plain part name
      exact ⟨here.noSlash, here.ne_nil, here.noColon⟩

variable {first : List Char}

variable {rest : List (List Char)}

theorem translate_unixSide (plain : AllOrdinary names)
    (fits : 3 * ups + (pathOf names).length < pathMax)
    (steps : unixSide ups names = first :: rest) :
    translateUnixToAmigaPathName (pathOf (unixSide ups names)) =
      .ok ⟨reduceSlashes (pathOf (amigaParts first rest)), false⟩ := by
  have spec := unixSide_spec ups plain
  have noColon : ':' ∉ pathOf (unixSide ups names) := by
    intro colon
    rcases mem_pathOf colon with slash | ⟨part, mem, inside⟩
    · exact absurd slash (by decide)
    · exact (spec part mem).2.2 inside
  have relative := head?_pathOf (fun part mem => (spec part mem).1)
    (fun part mem => (spec part mem).2.1)
  exact translate_relative relative noColon (length_unixSide ups fits)
    ((remaining_unixSide ups plain).trans steps)

theorem pathOf_nil_cons (ne : names ≠ []) : pathOf ([] :: names) = '/' :: pathOf names := by
  cases names with
  | nil => exact (ne rfl).elim
  | cons name names => rfl

/-- Up to two steps up are found again, and so are three with nothing behind them. -/
theorem amigaParts_few_ups (plain : AllOrdinary names)
    (few : ups <= 2 \/ ups = 3 /\ names = []) (steps : unixSide ups names = first :: rest) :
    pathOf (amigaParts first rest) = List.replicate ups '/' ++ pathOf names := by
  have absent := dotDot_not_mem plain
  cases names with
  | nil =>
    have cases : ups = 0 \/ ups = 1 \/ ups = 2 \/ ups = 3 := by omega
    rcases cases with rfl | rfl | rfl | rfl <;> cases steps <;> decide
  | cons name names =>
    have cases : ups = 0 \/ ups = 1 \/ ups = 2 := by
      rcases few with small | ⟨_, nil⟩
      · omega
      · cases nil
    have nonempty : name :: names ≠ [] := cons_ne_nil _ _
    rcases cases with rfl | rfl | rfl
    · cases steps
      rw [<- translateParents_pathOf plain.free, translateParents_ordinary plain]
      rfl
    · rw [show unixSide 1 (name :: names) = ['.', '.'] :: name :: names from rfl] at steps
      cases steps
      show pathOf ([] :: stepParts (name :: names)) = _
      rw [stepParts_eq_self absent]
      rfl
    · rw [show unixSide 2 (name :: names) = ['.', '.'] :: ['.', '.'] :: name :: names from rfl]
        at steps
      cases steps
      have stepsUp : stepParts (['.', '.'] :: name :: names) = [] :: name :: names := by
        cases names with
        | nil => exact stepParts_pair (plain name mem_cons_self).ne_dotDot
        | cons next names =>
          rw [stepParts_parent (cons_ne_nil _ _),
            stepParts_eq_self fun mem => absent (mem_cons_of_mem _ mem)]
      show pathOf ([] :: stepParts (['.', '.'] :: name :: names)) = _
      rw [stepsUp, pathOf_nil_cons (cons_ne_nil _ _)]
      rfl

theorem amigaMoves_solid (ne : names ≠ []) (solid : Solid names) :
    amigaMoves names = names.map .down := by
  induction names with
  | nil => exact (ne rfl).elim
  | cons name names ih =>
    have nameNe := solid.head
    by_cases nil : names = []
    · subst nil
      rw [amigaMoves, if_neg nameNe]
      rfl
    · rw [amigaMoves_cons nil, ih nil solid.tail, amigaMove, if_neg nameNe]
      rfl

theorem amigaWalk_ups (ups : Nat) (plain : AllOrdinary names) :
    amigaWalk (List.replicate ups '/' ++ pathOf names) =
      Walk.start.follow (List.replicate ups .up ++ names.map .down) := by
  rw [amigaWalk, components_ups plain]
  by_cases nil : names = []
  · rw [if_pos nil, amigaMoves_append _ _ (cons_ne_nil _ _), map_replicate, nil]
    rfl
  · rw [if_neg nil, amigaMoves_append _ _ nil, map_replicate,
      amigaMoves_solid nil plain.solid]
    rfl

/-- With more steps up one of them is left over, and the path does not come back. -/
theorem reduceSlashes_many_ups (plain : AllOrdinary names)
    (many : ¬ (ups <= 2 \/ ups = 3 /\ names = [])) (steps : unixSide ups names = first :: rest) :
    reduceSlashes (pathOf (amigaParts first rest)) ≠ List.replicate ups '/' ++ pathOf names := by
  obtain ⟨more, rfl⟩ : ∃ more, ups = more + 3 := ⟨ups - 3, by omega⟩
  have shape : unixSide (more + 3) names =
      ['.', '.'] :: ['.', '.'] :: ['.', '.'] :: (List.replicate more ['.', '.'] ++ names) :=
    if_neg (by omega)
  have doubled : Doubled rest := by
    rw [shape] at steps
    cases steps
    refine ⟨[], List.replicate more ['.', '.'] ++ names, fun nil => many ?_, rfl⟩
    obtain ⟨noMore, noNames⟩ := append_eq_nil_iff.mp nil
    have zero : more = 0 := by simpa using noMore
    exact Or.inr ⟨by omega, noNames⟩
  have firstEq : first = ['.', '.'] := by
    rw [shape] at steps
    exact (List.cons.inj steps).1.symm
  have spec := unixSide_spec (more + 3) plain
  rw [steps] at spec
  have free : Free (first :: rest) := fun part mem => (spec part mem).1
  have solid : Solid (first :: rest) := fun part mem => (spec part mem).2.1
  have colonFree : ∀ part ∈ first :: rest, ':' ∉ part := fun part mem =>
    (spec part mem).2.2
  have moves : (first :: rest).map unixMove = List.replicate (more + 3) .up ++ names.map .down := by
    rw [<- steps, shape]
    show (List.replicate (more + 3) ['.', '.'] ++ names).map unixMove = _
    rw [map_append, map_replicate]
    refine congrArg₂ (· ++ ·) rfl (map_congr_left fun name mem => ?_)
    exact if_neg (plain name mem).ne_dotDot
  intro equal
  have walk := congrArg amigaWalk equal
  rw [(reduceSlashes_spec (not_colon_amigaParts colonFree)).1, amigaWalk_ups _ plain, <- moves,
    amigaWalk, components_pathOf (amigaParts_ne_nil first rest) free.amigaParts] at walk
  exact follow_ne_of_doubled solid (firstEq ▸ by decide) doubled walk

/-! ## Absolute paths -/

theorem translate_to_unix_absolute (device : Option (List Char))
    (ne : vol ≠ []) (noSlash : '/' ∉ vol) (noColon : ':' ∉ vol)
    (plain : AllOrdinary names) (short : (vol ++ ':' :: pathOf names).length < pathMax) :
    translateAmigaToUnixPathName device (vol ++ ':' :: pathOf names) =
      if vol.length + (pathOf names).length + 2 < pathMax then .ok (separated '/' (vol :: names))
      else .error .nameTooLong := by
  have free := plain.free
  have solid := plain.solid
  have room := short
  rw [length_append, length_cons] at room
  have single : hasDoubleSlash (vol ++ ':' :: pathOf names) = false := by
    have shape : vol ++ ':' :: pathOf names = (vol ++ [':']) ++ pathOf names := by simp
    rw [shape, hasDoubleSlash_append (by simp [noSlash])]
    exact hasDoubleSlash_pathOf free solid
  have long : 0 < vol.length := length_pos_iff.mpr ne
  have steps : translateSteps (pathOf names) = .ok (pathOf names) :=
    translateSteps_relative 0 plain (by omega)
  have size : (vol ++ [':']).length = vol.length + 1 := by simp
  unfold translateAmigaToUnixPathName
  rw [if_neg (not_le.mpr short), single, if_neg Bool.false_ne_true]
  rw [if_neg (by simp), splitVolume_colon noColon]
  dsimp only
  rw [steps]
  show (if vol ++ [':'] = [] then _ else _) = _
  rw [if_neg (by simp), size]
  by_cases fits : vol.length + (pathOf names).length + 2 < pathMax
  swap
  · rw [if_neg fits, if_pos (by omega)]
    rfl
  rw [if_pos fits, if_neg (by omega), if_pos (by omega), dropLast_concat]
  unfold addVolume
  by_cases nil : names = []
  · subst nil
    simp [pathOf]
    rfl
  · rw [if_neg (pathOf_ne_nil nil solid)]
    cases names with
    | nil => exact (nil rfl).elim
    | cons name names => simp [pathOf]; rfl

theorem mapVolume_of_not_mapped (free : ¬ AmigaPath.Mapped vol names) :
    mapVolume vol names = (vol, names) := by
  rw [mapVolume, if_neg (fun same => free (Or.inl same)),
    if_neg (fun both => free (Or.inr ⟨both.1, Or.inl both.2⟩)),
    if_neg (fun both => free (Or.inr ⟨both.1, Or.inr both.2⟩))]

theorem not_colon_separated (noColon : ':' ∉ vol)
    (plain : AllOrdinary names) : ':' ∉ separated '/' (vol :: names) := by
  intro colon
  rcases mem_flatMap.mp colon with ⟨part, mem, inside⟩
  rcases mem_cons.mp inside with slash | here
  · exact absurd slash (by decide)
  · rcases mem_cons.mp mem with rfl | name
    · exact noColon here
    · exact (plain part name).noColon here

theorem length_separated_le (vol : List Char) (names : List (List Char)) :
    (separated '/' (vol :: names)).length <= vol.length + (pathOf names).length + 2 := by
  cases names with
  | nil => simp [pathOf]
  | cons name names =>
    simp only [separated_cons, pathOf, length_append, length_cons]
    omega

theorem translate_back_absolute (ne : vol ≠ []) (noSlash : '/' ∉ vol)
    (noColon : ':' ∉ vol) (notDot : vol ≠ ['.']) (plain : AllOrdinary names)
    (fits : vol.length + (pathOf names).length + 2 < pathMax) :
    ∃ root, translateUnixToAmigaPathName (separated '/' (vol :: names)) =
      .ok ⟨(mapVolume vol names).1 ++ ':' :: pathOf (mapVolume vol names).2, root⟩ := by
  have absent : ['.'] ∉ vol :: names := by
    intro mem
    rcases mem_cons.mp mem with same | name
    · exact notDot same.symm
    · exact (plain _ name).ne_dot rfl
  have free : Free (vol :: names) :=
    forall_mem_cons.mpr ⟨noSlash, plain.free⟩
  have solid : Solid (vol :: names) :=
    forall_mem_cons.mpr ⟨ne, plain.solid⟩
  have kept := dropInnerDots_eq_self absent
  refine translate_absolute ((length_separated_le vol names).trans_lt fits)
    (not_colon_separated noColon plain) noSlash noColon plain ?_
  have passes := ditch_absolute (cons_ne_nil _ _) free solid
    (kept.symm ▸ fun last => absent (mem_of_getLast? last)) (kept.symm ▸ free)
  rwa [kept] at passes

theorem translate_back_dot (plain : AllOrdinary names)
    (fits : (pathOf names).length + 3 < pathMax) (root : Bool) :
    translateUnixToAmigaPathName (separated '/' (['.'] :: names)) ≠
      .ok ⟨['.'] ++ ':' :: pathOf names, root⟩ := by
  cases names with
  | nil =>
    have colon : translateUnixToAmigaPathName (separated '/' [['.']]) = .ok ⟨[':'], true⟩ := by
      decide +kernel
    rw [colon]
    intro equal
    cases equal
  | cons name names =>
    have first := plain name mem_cons_self
    have others : AllOrdinary names := fun other mem =>
      plain other (mem_cons_of_mem _ mem)
    have absent : ['.'] ∉ name :: names := fun mem => (plain _ mem).ne_dot rfl
    have free : Free (['.'] :: name :: names) :=
      forall_mem_cons.mpr ⟨by decide, plain.free⟩
    have solid : Solid (['.'] :: name :: names) :=
      forall_mem_cons.mpr ⟨by decide, plain.solid⟩
    have dropped : dropInnerDots (['.'] :: name :: names) = name :: names := by
      rw [dropInnerDots, if_pos rfl, dropInnerDots_eq_self absent]
    have passes := ditch_absolute (cons_ne_nil _ _) free solid
      (dropped.symm ▸ fun last => absent (mem_of_getLast? last))
      (dropped.symm ▸ plain.free)
    rw [dropped] at passes
    have short : (separated '/' (['.'] :: name :: names)).length < pathMax := by
      have bound := length_separated_le ['.'] (name :: names)
      rw [length_singleton] at bound
      omega
    rcases translate_absolute short (not_colon_separated (by decide) plain) first.noSlash
      first.noColon others passes with ⟨found, result⟩
    rw [result]
    intro equal
    have sameName := congrArg Translated.name (Except.ok.inj equal)
    have volumes : (mapVolume name names).1 = ['.'] :=
      (append_inj_of_free (mapVolume_spec first.noSlash first.noColon others).2.1
        (show ':' ∉ ['.'] by decide) (Or.inr rfl) (Or.inr rfl) sameName).1
    unfold mapVolume at volumes
    split_ifs at volumes
    · exact absurd (show "T".toList = ['.'] from volumes) (by decide)
    · exact absurd volumes (by decide)
    · exact absurd volumes (by decide)
    · exact first.ne_dot volumes

/-! ## Both ways -/

def AmigaPath.Returns : AmigaPath -> Prop
  | absolute vol _ => vol ≠ ['.']
  | relative ups names => ups <= 2 \/ ups = 3 /\ names = []

section

variable (device : Option (List Char)) {path : AmigaPath} (wellFormed : path.WellFormed)
include wellFormed

/-- A path that does not fit the buffer is refused. -/
theorem translate_to_unix_long (long : ¬ path.Fits) :
    translateAmigaToUnixPathName device path.text = .error .nameTooLong := by
  by_cases short : path.text.length < pathMax
  swap
  · exact if_pos (not_lt.mp short)
  cases path with
  | absolute vol names =>
    rcases wellFormed with ⟨ne, noSlash, noColon, -, plain⟩
    exact (translate_to_unix_absolute device ne noSlash noColon plain short).trans (if_neg long)
  | relative ups names =>
    have large : pathMax <= 3 * ups + (pathOf names).length := not_lt.mp long
    have room : (List.replicate ups '/' ++ pathOf names).length < pathMax := short
    rw [length_append, length_replicate] at room
    refine (translate_to_unix_steps wellFormed room ?_).trans (translateSteps_long wellFormed large)
    rintro ⟨rfl, rfl⟩
    exact absurd large (by decide)

theorem translate_back_iff (fits : path.Fits) :
    ∃ unix, translateAmigaToUnixPathName device path.text = .ok unix /\
      ((∃ root, translateUnixToAmigaPathName unix = .ok ⟨path.text, root⟩) <->
        path.Returns) := by
  cases path with
  | absolute vol names =>
    rcases wellFormed with ⟨ne, noSlash, noColon, notMapped, plain⟩
    have size : vol.length + (pathOf names).length + 2 < pathMax := fits
    have short : (vol ++ ':' :: pathOf names).length < pathMax := by
      rw [length_append, length_cons]
      omega
    refine ⟨_, (translate_to_unix_absolute device ne noSlash noColon plain short).trans
      (if_pos size), ?_⟩
    constructor
    · rintro ⟨root, back⟩ rfl
      refine translate_back_dot plain ?_ root back
      have room : ['.'].length + (pathOf names).length + 2 < pathMax := fits
      rw [length_singleton] at room
      omega
    · intro notDot
      rcases translate_back_absolute ne noSlash noColon notDot plain fits with ⟨root, back⟩
      rw [mapVolume_of_not_mapped notMapped] at back
      exact ⟨root, back⟩
  | relative ups names =>
    have plain : AllOrdinary names := wellFormed
    refine ⟨_, translate_to_unix_relative plain fits, ?_⟩
    have ne : unixSide ups names ≠ [] := by
      rw [<- remaining_unixSide ups plain]
      exact remaining_ne_nil _
    obtain ⟨first, rest, steps⟩ := exists_cons_of_ne_nil ne
    rw [translate_unixSide plain fits steps]
    constructor
    · rintro ⟨root, back⟩
      by_contra many
      exact reduceSlashes_many_ups plain many steps
        (congrArg Translated.name (Except.ok.inj back))
    · intro few
      refine ⟨false, ?_⟩
      rw [amigaParts_few_ups plain few steps, reduceSlashes, stripDoubleSlash_ups plain,
        ite_self]
      rfl

/-- A path comes back from its Unix form if and only if it fits the buffer and its volume is
not named by a dot, or for a relative path, it does not take more than two steps up, or
three and nothing else.  The first translation fails only if the path does not fit. -/
theorem amiga_round_trip_iff :
    ((∃ unix root, translateAmigaToUnixPathName device path.text = .ok unix /\
        translateUnixToAmigaPathName unix = .ok ⟨path.text, root⟩) <->
      path.Fits /\ path.Returns) /\
    (path.Fits -> ∃ unix, translateAmigaToUnixPathName device path.text = .ok unix) /\
    (¬ path.Fits -> translateAmigaToUnixPathName device path.text = .error .nameTooLong) := by
  refine ⟨⟨?_, ?_⟩, fun fits => ?_, translate_to_unix_long device wellFormed⟩
  · rintro ⟨unix, root, translated, back⟩
    have fits : path.Fits := by
      by_contra long
      cases translated.symm.trans (translate_to_unix_long device wellFormed long)
    obtain ⟨other, same, returns⟩ := translate_back_iff device wellFormed fits
    cases translated.symm.trans same
    exact ⟨fits, returns.mp ⟨root, back⟩⟩
  · rintro ⟨fits, few⟩
    obtain ⟨unix, translated, returns⟩ := translate_back_iff device wellFormed fits
    obtain ⟨root, back⟩ := returns.mpr few
    exact ⟨unix, root, translated, back⟩
  · obtain ⟨unix, translated, -⟩ := translate_back_iff device wellFormed fits
    exact ⟨unix, translated⟩

end

/-- A path on a volume. -/
theorem amiga_round_trip_on_volume :
    ∃ unix root, translateAmigaToUnixPathName none "Work:src/a.c".toList = .ok unix /\
      translateUnixToAmigaPathName unix = .ok ⟨"Work:src/a.c".toList, root⟩ := by
  have wellFormed : (AmigaPath.absolute "Work".toList ["src".toList, "a.c".toList]).WellFormed := by
    refine ⟨by decide, by decide, by decide, ?_, ?_⟩
    · unfold AmigaPath.Mapped
      decide
    · intro name mem
      rcases mem_cons.mp mem with rfl | mem
      · exact ⟨by decide, by decide, by decide, by decide, by decide⟩
      · rw [mem_singleton.mp mem]
        exact ⟨by decide, by decide, by decide, by decide, by decide⟩
  have fits : (AmigaPath.absolute "Work".toList ["src".toList, "a.c".toList]).Fits := by
    unfold AmigaPath.Fits
    decide
  exact (amiga_round_trip_iff none wellFormed).1.mpr ⟨fits, show "Work".toList ≠ ['.'] by decide⟩

/-- Three steps up in front of a name do not come back. -/
theorem three_ups_do_not_come_back : (AmigaPath.relative 3 ["a".toList]).text = "///a".toList /\
      translateAmigaToUnixPathName none "///a".toList = .ok "../../../a".toList /\
      translateUnixToAmigaPathName "../../../a".toList = .ok ⟨"//../a".toList, false⟩ := by
  decide +kernel

end Clib4.Unistd
