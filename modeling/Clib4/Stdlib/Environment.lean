import Clib4.Foundation.Run
import Mathlib.Data.List.TakeWhile
import Mathlib.Logic.Function.Basic

namespace Clib4.Stdlib

open Foundation List

/-!
# The environment

`setenv.c`, `putenv.c`, `unsetenv.c` and `getenv.c` keep the variables in an array
of strings `name=value`.  `setenv` copies a value over an old one that is not
shorter, replaces the string of a shorter one and appends a new string otherwise;
`unsetenv` moves the rest of the array down for every string it finds.  No two
entries share a string, since every string is allocated for its entry.

The purpose of all this is a map from names to values, and `Variables` is that map.
-/

/-! ## The functions -/

/-- The array, without its end, and whether `setenv` has allocated it. -/
structure Environ where
  entries : List (List Char)
  alloced : Bool
deriving DecidableEq, Repr

inductive Errno
  | EINVAL
deriving DecidableEq, Repr

def nameOf (name : List Char) : List Char := name.takeWhile (· ≠ '=')

/-- `strncmp` finds the name at the beginning of the string, and an equals sign follows. -/
def IsFor (name string : List Char) : Prop :=
  string.take (nameOf name).length = name.take (nameOf name).length /\
    string[(nameOf name).length]? = some '='

instance (name string : List Char) : Decidable (IsFor name string) :=
  inferInstanceAs (Decidable (_ /\ _))

/-- The loop of `getenv_r`: the first string for the name, and its value. -/
def getenvFrom (name : List Char) : List (List Char) -> Nat -> Option (Nat × List Char)
  | [], _ => none
  | p :: ps, offset =>
    if IsFor name p then some (offset, p.drop ((nameOf name).length + 1))
    else getenvFrom name ps (offset + 1)

def getenvR (entries : List (List Char)) (name : List Char) : Option (Nat × List Char) :=
  getenvFrom name entries 0

def getenv (env : Environ) (name : List Char) : Option (List Char) :=
  (getenvR env.entries name).map Prod.snd

def stripped (value : List Char) : List Char :=
  if value.head? = some '=' then value.tail else value

/-- `setenv`, with all allocations succeeding. -/
def setenv (env : Environ) (name value : List Char) (overwrite : Bool) : Int × Environ :=
  let value := stripped value
  match getenvR env.entries name with
  | some (offset, old) =>
    if !overwrite then (0, env)
    else if value.length <= old.length then
      -- the old string is long enough and keeps its name
      (0, { env with
        entries := env.entries.modify offset fun entry =>
          entry.take ((nameOf name).length + 1) ++ value })
    else (0, { env with entries := env.entries.set offset (nameOf name ++ '=' :: value) })
  | none => (0, { entries := env.entries ++ [nameOf name ++ '=' :: value], alloced := true })

def putenv (env : Environ) (string : List Char) : Int × Option Errno × Environ :=
  if '=' ∈ string then
    let ⟨result, env⟩ := setenv env (nameOf string) (string.drop ((nameOf string).length + 1)) true
    (result, none, env)
  else (-1, some .EINVAL, env)

variable {entries : List (List Char)} {value : List Char}

theorem getenvFrom_lt {name : List Char} {start offset : Nat}
    (found : getenvFrom name entries start = some (offset, value)) :
    start <= offset /\ offset < start + entries.length := by
  induction entries generalizing start with
  | nil => cases found
  | cons p ps ih =>
    unfold getenvFrom at found
    split_ifs at found with here
    · cases found
      exact ⟨le_refl _, Nat.lt_add_of_pos_right (Nat.succ_pos _)⟩
    · have := ih found
      rw [length_cons]
      omega

/-- The loop of `unsetenv`. -/
def unsetLoop (name : List Char) (entries : List (List Char)) : List (List Char) :=
  match _found : getenvR entries name with
  | none => entries
  | some (offset, _) => unsetLoop name (entries.eraseIdx offset)
termination_by entries.length
decreasing_by
  have lt := (getenvFrom_lt _found).2
  rw [length_eraseIdx]
  split_ifs <;> omega

/-- `unsetenv`; the result is set before the loop and never after. -/
def unsetenv (env : Environ) (name : List Char) : Int × Environ :=
  (-1, { env with entries := unsetLoop name env.entries })

/-! ## Names and values of strings -/

/-- A name as the functions want it. -/
structure Name where
  text : List Char
  noEquals : '=' ∉ text
deriving DecidableEq

namespace Name

variable {name other : Name}

theorem ext {name other : Name} (same : name.text = other.text) : name = other := by
  cases name
  cases other
  cases same
  rfl

theorem nameOf_text (name : Name) : nameOf name.text = name.text := by
  unfold nameOf
  rw [takeWhile_eq_self_iff]
  intro c mem
  rw [decide_eq_true_eq]
  rintro rfl
  exact name.noEquals mem

def entry (name : Name) (value : List Char) : List Char := name.text ++ '=' :: value

theorem isFor_iff {string : List Char} :
    IsFor name.text string <-> ∃ value, string = name.entry value := by
  unfold IsFor entry
  rw [nameOf_text, take_length]
  constructor
  · rintro ⟨text, equals⟩
    obtain ⟨inside, cell⟩ := List.getElem?_eq_some_iff.mp equals
    refine ⟨string.drop (name.text.length + 1), ?_⟩
    rw [<- cell, <- drop_eq_getElem_cons inside, <- text, length_take,
      Nat.min_eq_left inside.le, take_append_drop]
  · rintro ⟨value, rfl⟩
    simp

theorem drop_entry {name : Name} {value : List Char} :
    (name.entry value).drop ((nameOf name.text).length + 1) = value := by
  unfold entry
  rw [nameOf_text]
  simp

theorem entry_inj {value value' : List Char} (same : name.entry value = other.entry value') :
    name = other /\ value = value' := by
  have first := congrArg (List.takeWhile (· ≠ '=')) same
  have part (name : Name) (value : List Char) :
      (name.entry value).takeWhile (· ≠ '=') = name.text := by
    unfold entry
    rw [takeWhile_append_of_pos]
    · simp
    · intro c mem
      rw [decide_eq_true_eq]
      rintro rfl
      exact name.noEquals mem
  rw [part, part] at first
  cases ext first
  refine ⟨rfl, ?_⟩
  have rest := congrArg (List.drop ((nameOf name.text).length + 1)) same
  rwa [drop_entry, drop_entry] at rest

end Name

/-! ## Searching -/

def valueIn (name string : List Char) : Option (List Char) :=
  if IsFor name string then some (string.drop ((nameOf name).length + 1)) else none

theorem valueIn_entry_of_ne {name other : Name} (differ : other ≠ name) (value : List Char) :
    valueIn other.text (name.entry value) = none := by
  unfold valueIn
  rw [if_neg]
  intro isFor
  obtain ⟨value', same⟩ := Name.isFor_iff.mp isFor
  exact differ (Name.entry_inj same).1.symm

theorem getenvFrom_snd (name : List Char) (entries : List (List Char)) (start : Nat) :
    (getenvFrom name entries start).map Prod.snd = entries.findSome? (valueIn name) := by
  induction entries generalizing start with
  | nil => rfl
  | cons string entries ih =>
    rw [getenvFrom, List.findSome?_cons, valueIn]
    split_ifs with here
    · rfl
    · exact ih (start + 1)

theorem getenv_eq_findSome? (env : Environ) (name : List Char) :
    getenv env name = env.entries.findSome? (valueIn name) :=
  getenvFrom_snd name env.entries 0

theorem getenvFrom_eq_some {name : Name} {start offset : Nat}
    (found : getenvFrom name.text entries start = some (offset, value)) :
    ∃ before after, entries = before ++ name.entry value :: after /\
      offset = start + before.length /\ before.findSome? (valueIn name.text) = none := by
  induction entries generalizing start with
  | nil => cases found
  | cons string entries ih =>
    unfold getenvFrom at found
    split_ifs at found with here
    · cases found
      obtain ⟨value, rfl⟩ := Name.isFor_iff.mp here
      refine ⟨[], entries, ?_, rfl, rfl⟩
      rw [Name.drop_entry]
      rfl
    · obtain ⟨before, after, rfl, rfl, others⟩ := ih found
      refine ⟨string :: before, after, rfl, ?_, ?_⟩
      · rw [length_cons]
        omega
      · rw [List.findSome?_cons, valueIn, if_neg here]
        exact others

/-! ## The map -/

abbrev Variables := Name -> Option (List Char)

def mapOf (env : Environ) : Variables := fun name => getenv env name.text

theorem modify_append_cons {before after : List (List Char)} {string : List Char}
    (change : List Char -> List Char) :
    (before ++ string :: after).modify before.length change = before ++ change string :: after := by
  induction before with
  | nil => rfl
  | cons first before ih => exact congrArg (first :: ·) ih

/-- What becomes of the array: a string for the name is put in place of the first, or last. -/
theorem setenv_cases (env : Environ) (name : Name) (value : List Char) (overwrite : Bool) :
    (∃ old, mapOf env name = some old /\ overwrite = false /\
        setenv env name.text value overwrite = (0, env)) \/
      (∃ old before after, mapOf env name = some old /\ overwrite /\
        env.entries = before ++ name.entry old :: after /\
        before.findSome? (valueIn name.text) = none /\
        setenv env name.text value overwrite =
          (0, { env with entries := before ++ name.entry (stripped value) :: after })) \/
      (mapOf env name = none /\ setenv env name.text value overwrite =
          (0, { entries := env.entries ++ [name.entry (stripped value)], alloced := true })) := by
  unfold mapOf getenv
  cases found : getenvR env.entries name.text with
  | none =>
    refine Or.inr (Or.inr ⟨rfl, ?_⟩)
    unfold setenv
    rw [found, Name.nameOf_text]
    rfl
  | some place =>
    obtain ⟨offset, old⟩ := place
    cases overwrite with
    | false =>
      refine Or.inl ⟨old, rfl, rfl, ?_⟩
      unfold setenv
      rw [found]
      rfl
    | true =>
      obtain ⟨before, after, entries, rfl, others⟩ := getenvFrom_eq_some found
      refine Or.inr (Or.inl ⟨old, before, after, rfl, rfl, entries, others, ?_⟩)
      unfold setenv
      rw [found, entries, Nat.zero_add]
      simp only [Bool.not_true, Bool.false_eq_true, if_false]
      split_ifs with fits
      · -- copied over the old value
        rw [modify_append_cons, Name.entry, Name.nameOf_text, take_length_add_append,
          append_assoc]
        rfl
      · rw [set_append_right _ _ (Nat.le_refl _), Nat.sub_self, Name.nameOf_text]
        rfl

theorem mapOf_insert {env env' : Environ} {name : Name} {before after after' : List (List Char)}
    (new : env'.entries = before ++ name.entry value :: after)
    (old : env.entries = before ++ after') (others : before.findSome? (valueIn name.text) = none)
    (rest : ∀ other : Name, other ≠ name ->
      after.findSome? (valueIn other.text) = after'.findSome? (valueIn other.text)) :
    mapOf env' = Function.update (mapOf env) name (some value) := by
  funext other
  unfold mapOf
  rw [getenv_eq_findSome?, new, List.findSome?_append, List.findSome?_cons]
  by_cases same : other = name
  · rw [same, others, valueIn, if_pos (Name.isFor_iff.mpr ⟨_, rfl⟩), Name.drop_entry,
      Function.update_self]
    rfl
  · rw [Function.update_of_ne same, getenv_eq_findSome?, old, List.findSome?_append,
      valueIn_entry_of_ne same, rest other same]

theorem mapOf_setenv (env : Environ) (name : Name) (value : List Char) (overwrite : Bool) :
    (setenv env name.text value overwrite).1 = 0 /\ mapOf (setenv env name.text value overwrite).2 =
        if overwrite \/ mapOf env name = none then
          Function.update (mapOf env) name (some (stripped value))
        else mapOf env := by
  rcases setenv_cases env name value overwrite with ⟨old, set, rfl, result⟩ |
    ⟨old, before, after, set, rfl, entries, others, result⟩ | ⟨unset, result⟩
  · rw [result, set]
    exact ⟨rfl, rfl⟩
  · rw [result]
    refine ⟨rfl, ?_⟩
    refine mapOf_insert rfl entries others fun other differ => ?_
    rw [List.findSome?_cons, valueIn_entry_of_ne differ]
  · rw [result, if_pos (Or.inr unset)]
    refine ⟨rfl, ?_⟩
    unfold mapOf at unset
    rw [getenv_eq_findSome?] at unset
    exact mapOf_insert rfl (append_nil _).symm unset (fun _ _ => rfl)

/-! ## `unsetenv` -/

theorem not_isFor_of_getenvR_eq_none {name : List Char}
    (unset : getenvR entries name = none) : ∀ string ∈ entries, ¬ IsFor name string := by
  have values := getenvFrom_snd name entries 0
  rw [show getenvFrom name entries 0 = none from unset] at values
  intro string mem here
  have value := List.findSome?_eq_none_iff.mp values.symm string mem
  rw [valueIn, if_pos here] at value
  cases value

theorem unsetLoop_eq_filter {name : Name} {entries : List (List Char)} :
    unsetLoop name.text entries =
      entries.filter fun string => decide (¬ IsFor name.text string) := by
  generalize text : name.text = searched
  fun_induction unsetLoop searched entries with
  | case1 entries unset =>
    rw [filter_eq_self.mpr]
    intro string mem
    rw [decide_eq_true_eq]
    exact not_isFor_of_getenvR_eq_none unset string mem
  | case2 entries offset value found ih =>
    rw [<- text] at found ⊢
    obtain ⟨before, after, entries_eq, place, _⟩ := getenvFrom_eq_some found
    rw [Nat.zero_add] at place
    rw [<- text] at ih
    rw [ih, place, entries_eq, eraseIdx_append_of_length_le (Nat.le_refl _), Nat.sub_self,
      eraseIdx_cons_zero, filter_append, filter_append, filter_cons_of_neg]
    rw [decide_eq_true_eq, not_not]
    exact Name.isFor_iff.mpr ⟨value, rfl⟩

theorem findSome?_filter_of_ne {name other : Name} (differ : other ≠ name)
    {entries : List (List Char)} :
    (entries.filter fun string => decide (¬ IsFor name.text string)).findSome?
        (valueIn other.text) = entries.findSome? (valueIn other.text) := by
  induction entries with
  | nil => rfl
  | cons string entries ih =>
    by_cases here : IsFor name.text string
    · obtain ⟨value, rfl⟩ := Name.isFor_iff.mp here
      rw [filter_cons_of_neg (by simpa using here), List.findSome?_cons,
        valueIn_entry_of_ne differ]
      exact ih
    · rw [filter_cons_of_pos (by simpa using here), List.findSome?_cons,
        List.findSome?_cons, ih]

theorem mapOf_unsetenv (env : Environ) (name : Name) :
    mapOf (unsetenv env name.text).2 = Function.update (mapOf env) name none := by
  funext other
  unfold mapOf unsetenv
  rw [getenv_eq_findSome?, unsetLoop_eq_filter]
  by_cases same : other = name
  · rw [same, Function.update_self, List.findSome?_eq_none_iff]
    intro string mem
    obtain ⟨_, notFor⟩ := mem_filter.mp mem
    rw [decide_eq_true_eq] at notFor
    rw [valueIn, if_neg notFor]
  · rw [Function.update_of_ne same, getenv_eq_findSome?]
    exact findSome?_filter_of_ne same

/-! ## `putenv` -/

/-- The name in a text with an equals sign, and what follows the sign. -/
def Name.ofText (string : List Char) : Name where
  text := nameOf string
  noEquals := by
    intro mem
    have other := mem_takeWhile_imp mem
    rw [decide_eq_true_eq] at other
    exact other rfl

def valueOfText (string : List Char) : List Char := string.drop ((nameOf string).length + 1)

/-! ## Calls -/

inductive Call
  | setenv (name : Name) (value : List Char) (overwrite : Bool)
  | putenv (string : List Char)
  | unsetenv (name : Name)
  | getenv (name : Name)

/-- What a call answers. -/
inductive Answer
  | status (result : Int)
  | value (value : Option (List Char))
deriving DecidableEq, Repr

def perform (env : Environ) : Call -> Answer × Environ
  | .setenv name value overwrite =>
    let ⟨result, env⟩ := setenv env name.text value overwrite
    (.status result, env)
  | .putenv string =>
    let ⟨result, _, env⟩ := putenv env string
    (.status result, env)
  | .unsetenv name =>
    let ⟨result, env⟩ := unsetenv env name.text
    (.status result, env)
  | .getenv name => (.value (getenv env name.text), env)

namespace Variables

def perform (map : Variables) : Call -> Answer × Variables
  | .setenv name value overwrite =>
    (.status 0,
      if overwrite \/ map name = none then Function.update map name (some value) else map)
  | .putenv string =>
    if '=' ∈ string then
      (.status 0, Function.update map (Name.ofText string) (some (valueOfText string)))
    else (.status (-1), map)
  | .unsetenv name => (.status 0, Function.update map name none)
  | .getenv name => (.value (map name), map)

end Variables

/-- The value the call would store begins with no equals sign. -/
def Plain (env : Environ) : Call -> Prop
  | .setenv name value overwrite =>
    (overwrite = false /\ mapOf env name ≠ none) \/ value.head? ≠ some '='
  | .putenv string => (valueOfText string).head? ≠ some '='
  | _ => True

/-- The environment does what the map does, and answers alike. -/
def Follows (env : Environ) (call : Call) : Prop :=
  (perform env call).1 = ((mapOf env).perform call).1 /\
    mapOf (perform env call).2 = ((mapOf env).perform call).2

theorem stripped_eq_self_iff (value : List Char) :
    stripped value = value <-> value.head? ≠ some '=' := by
  unfold stripped
  cases value with
  | nil => simp
  | cons c value =>
    rw [tail_cons]
    split_ifs with equals
    · refine iff_of_false (fun same => ?_) (not_not_intro equals)
      have := congrArg List.length same
      rw [length_cons] at this
      omega
    · exact iff_of_true rfl equals

theorem update_some_inj {map : Variables} {name : Name} {value value' : List Char} :
    Function.update map name (some value) = Function.update map name (some value') <->
      value = value' := by
  constructor
  · intro same
    have here := congrFun same name
    rw [Function.update_self, Function.update_self] at here
    exact Option.some.inj here
  · exact fun same => same ▸ rfl

/-! ## Environments as maps -/

theorem mapOf_putenv (env : Environ) {string : List Char} (equals : '=' ∈ string) :
    (putenv env string).1 = 0 /\ mapOf (putenv env string).2.2 =
        Function.update (mapOf env) (Name.ofText string)
          (some (stripped (valueOfText string))) := by
  obtain ⟨status, map⟩ := mapOf_setenv env (Name.ofText string) (valueOfText string) true
  unfold putenv
  rw [if_pos equals]
  exact ⟨status, map⟩

/-- The map after a call is the right one exactly if no equals sign is lost. -/
theorem mapOf_perform_iff (env : Environ) (call : Call) :
    mapOf (perform env call).2 = ((mapOf env).perform call).2 <-> Plain env call := by
  cases call with
  | setenv name value overwrite =>
    obtain ⟨_, map⟩ := mapOf_setenv env name value overwrite
    change mapOf (setenv env name.text value overwrite).2 = (if _ then _ else _) <-> _
    rw [map]
    simp only [Plain]
    by_cases writes : overwrite \/ mapOf env name = none
    · rw [if_pos writes, if_pos writes, update_some_inj, stripped_eq_self_iff, or_iff_right]
      rintro ⟨keeps, set⟩
      rcases writes with writes | unset
      · rw [keeps] at writes
        cases writes
      · exact set unset
    · rw [if_neg writes, if_neg writes]
      rw [not_or, Bool.not_eq_true] at writes
      exact iff_of_true rfl (Or.inl writes)
  | putenv string =>
    by_cases equals : '=' ∈ string
    · change mapOf (putenv env string).2.2 = ((mapOf env).perform _).2 <-> _
      rw [(mapOf_putenv env equals).2, Variables.perform, if_pos equals, update_some_inj,
        stripped_eq_self_iff]
      rfl
    · have nothing : valueOfText string = [] := by
        unfold valueOfText
        rw [Name.nameOf_text ⟨string, equals⟩]
        exact drop_eq_nil_of_le (Nat.le_succ _)
      rw [perform, putenv, if_neg equals, Variables.perform, if_neg equals]
      refine iff_of_true rfl ?_
      simp only [Plain]
      rw [nothing]
      decide
  | unsetenv name => exact iff_of_true (mapOf_unsetenv env name) trivial
  | getenv name => exact iff_of_true rfl trivial

/-- `unsetenv` is the only function whose answer is not that of the map. -/
theorem answer_perform_iff {env : Environ} {call : Call} :
    (perform env call).1 = ((mapOf env).perform call).1 <-> ∀ name, call ≠ .unsetenv name := by
  cases call with
  | setenv name value overwrite =>
    refine iff_of_true ?_ (fun _ same => by cases same)
    change Answer.status (setenv env name.text value overwrite).1 = .status 0
    rw [(mapOf_setenv env name value overwrite).1]
  | putenv string =>
    refine iff_of_true ?_ (fun _ same => by cases same)
    change Answer.status (putenv env string).1 = ((mapOf env).perform _).1
    by_cases equals : '=' ∈ string
    · rw [(mapOf_putenv env equals).1, Variables.perform, if_pos equals]
    · rw [putenv, if_neg equals, Variables.perform, if_neg equals]
  | unsetenv name =>
    refine iff_of_false ?_ (fun other => other name rfl)
    intro same
    cases same
  | getenv name => exact iff_of_true rfl (fun _ same => by cases same)

def step (env : Environ) (call : Call) : Option Environ := some (perform env call).2

def Variables.run (map : Variables) (calls : List Call) : Variables :=
  calls.foldl (fun map call => (map.perform call).2) map

theorem run_mapOf {env : Environ} {calls : List Call}
    (plain : AllowedRun step Plain env calls) :
    ∃ reached, run step env calls = some reached /\ mapOf reached = (mapOf env).run calls := by
  induction calls generalizing env with
  | nil => exact ⟨env, rfl, rfl⟩
  | cons call calls ih =>
    have same := (mapOf_perform_iff env call).mpr plain.1
    obtain ⟨reached, ran, map⟩ := ih (plain.2 _ rfl)
    refine ⟨reached, ran, ?_⟩
    rw [map, same]
    rfl

/--
Over every run of calls that store no value beginning with an equals sign the array
behaves as a map, and in each state reached a call does and answers what the map does
exactly if it is such a call and not one of `unsetenv`.
-/
theorem environ_behaves_as_map (env : Environ) (calls : List Call)
    (plain : AllowedRun step Plain env calls) (count : Nat) :
    ∃ reached, run step env (calls.take count) = some reached /\
      mapOf reached = (mapOf env).run (calls.take count) /\
      ∀ call, Follows reached call <->
        Plain reached call /\ ∀ name, call ≠ .unsetenv name := by
  obtain ⟨reached, ran, map⟩ := run_mapOf (plain.take count)
  refine ⟨reached, ran, map, fun call => ?_⟩
  unfold Follows
  rw [answer_perform_iff, mapOf_perform_iff, and_comm]

def Name.home : Name := ⟨"HOME".toList, by decide⟩

theorem environ_behaves_as_map_at_home : ∃ reached, run step ⟨["HOME=ram:".toList], false⟩
        ([Call.setenv .home "work:".toList true, .unsetenv .home].take 2) = some reached /\
      mapOf reached = (mapOf ⟨["HOME=ram:".toList], false⟩).run
        ([Call.setenv .home "work:".toList true, .unsetenv .home].take 2) /\
      ∀ call, Follows reached call <->
        Plain reached call /\ ∀ name, call ≠ .unsetenv name :=
  environ_behaves_as_map ⟨["HOME=ram:".toList], false⟩
    [.setenv .home "work:".toList true, .unsetenv .home]
    ⟨Or.inr (by decide), fun _ _ => ⟨trivial, fun _ _ => trivial⟩⟩ 2

/-- An equals sign at the beginning of a value is lost, and `unsetenv` reports failure. -/
theorem environ_loses_equals_sign :
    getenv (setenv ⟨[], false⟩ "A".toList "=x".toList true).2 "A".toList = some "x".toList /\
      (unsetenv ⟨["A=x".toList], false⟩ "A".toList).1 = -1 := by
  decide

/-! ## When memory runs out -/

/-- What the allocations of a call answer: for the copy that `putenv` works on, for a
longer array and for the string of the variable. -/
structure Memory where
  copy : Bool
  array : Bool
  string : Bool

/-- `setenv`, with `none` for an `environ` that is `NULL`. -/
def setenvIn (memory : Memory) (env : Environ) (name value : List Char) (overwrite : Bool) :
    Int × Option Environ :=
  match getenvR env.entries name with
  | some (offset, old) =>
    if overwrite /\ old.length < (stripped value).length /\ memory.string = false then
      -- what `malloc` answers becomes the entry, and a `NULL` ends the array
      (-1, some { env with entries := env.entries.take offset })
    else (0, some (setenv env name value overwrite).2)
  | none =>
    if memory.array = false then
      -- what `realloc` answers becomes the array
      (-1, if env.alloced then none else some { env with alloced := true })
    else if memory.string = false then (-1, some { env with alloced := true })
    else (0, some (setenv env name value overwrite).2)

/-- An allocation that `setenv` makes fails. -/
def SetenvFails (memory : Memory) (env : Environ) (name value : List Char) (overwrite : Bool) :
    Prop :=
  match getenvR env.entries name with
  | some (_, old) =>
    overwrite /\ old.length < (stripped value).length /\ memory.string = false
  | none => memory.array = false \/ memory.string = false

/-- The variable is a new one, and `realloc` does not fail. -/
def AddsString (memory : Memory) (env : Environ) (name : List Char) : Prop :=
  getenvR env.entries name = none /\ (memory.array \/ env.alloced = false)

theorem setenvIn_of_fails {memory : Memory} {env : Environ} {name value : List Char}
    {overwrite : Bool} (fails : SetenvFails memory env name value overwrite) :
    (setenvIn memory env name value overwrite).1 = -1 /\
      ((setenvIn memory env name value overwrite).2.map Environ.entries = some env.entries <->
        AddsString memory env name) := by
  unfold SetenvFails at fails
  unfold setenvIn AddsString
  cases found : getenvR env.entries name with
  | some place =>
    obtain ⟨offset, old⟩ := place
    rw [found] at fails
    dsimp only at fails ⊢
    rw [if_pos fails]
    refine ⟨rfl, fun same => ?_, fun unset => nomatch unset.1⟩
    have shorter := congrArg List.length (Option.some.inj same)
    have inside := (getenvFrom_lt found).2
    rw [length_take] at shorter
    omega
  | none =>
    rw [found] at fails
    cases array : memory.array with
    | false => cases alloced : env.alloced <;> simp
    | true =>
      have string := fails.resolve_left (by simp [array])
      simp [string]

/-- `setenv` and `putenv`. -/
inductive Setting
  | setenv (name value : List Char) (overwrite : Bool)
  | putenv (string : List Char)

namespace Setting

variable (memory : Memory) (env : Environ)

def perform : Setting -> Int × Option Environ
  | .setenv name value overwrite => setenvIn memory env name value overwrite
  | .putenv string =>
    if memory.copy = false then (-1, some env)
    else if '=' ∈ string then setenvIn memory env (nameOf string) (valueOfText string) true
    else (-1, some env)

def Fails : Setting -> Prop
  | .setenv name value overwrite => SetenvFails memory env name value overwrite
  | .putenv string => memory.copy = false \/
      ('=' ∈ string /\ SetenvFails memory env (nameOf string) (valueOfText string) true)

/-- There is no memory for the copy, or a new variable is added to the old ones. -/
def KeepsStrings : Setting -> Prop
  | .setenv name _ _ => AddsString memory env name
  | .putenv string => memory.copy = false \/ AddsString memory env (nameOf string)

variable {memory : Memory} {env : Environ}

/--
A call in which an allocation fails returns an error and leaves the strings that
`environ` shows as they were exactly if the variable is a new one and it is not
`realloc` that fails, or if there is no memory for the copy of `putenv`.
-/
theorem failed_allocation_iff {setting : Setting} (fails : setting.Fails memory env) :
    ((setting.perform memory env).1 = -1 /\
      (setting.perform memory env).2.map Environ.entries = some env.entries) <->
      setting.KeepsStrings memory env := by
  cases setting with
  | setenv name value overwrite =>
    obtain ⟨result, strings⟩ := setenvIn_of_fails fails
    exact ⟨fun both => strings.mp both.2, fun keeps => ⟨result, strings.mpr keeps⟩⟩
  | putenv string =>
    unfold perform KeepsStrings
    dsimp only
    by_cases copy : memory.copy = false
    · rw [if_pos copy]
      exact ⟨fun _ => Or.inl copy, fun _ => ⟨rfl, rfl⟩⟩
    · obtain ⟨equals, fails⟩ := fails.resolve_left copy
      obtain ⟨result, strings⟩ := setenvIn_of_fails fails
      rw [if_neg copy, if_pos equals]
      exact ⟨fun both => Or.inr (strings.mp both.2),
        fun keeps => ⟨result, strings.mpr (keeps.resolve_left copy)⟩⟩

/-- The string of a new variable cannot be allocated. -/
theorem failed_allocation_of_new_variable :
    (perform ⟨true, true, false⟩ ⟨["A=x".toList], true⟩ (.putenv "B=y".toList)).2.map
      Environ.entries = some ["A=x".toList] :=
  ((failed_allocation_iff (show Fails ⟨true, true, false⟩ ⟨["A=x".toList], true⟩
    (.putenv "B=y".toList) from Or.inr ⟨by decide, Or.inr rfl⟩)).mpr
      (Or.inr ⟨by decide, Or.inl rfl⟩)).2

/-- A longer value loses the variable and all behind it, and a new one all of them. -/
theorem failed_allocation_loses_variables :
    perform ⟨true, true, false⟩ ⟨["A=x".toList, "B=y".toList], true⟩
        (.setenv "A".toList "xyz".toList true) = (-1, some ⟨[], true⟩) /\
      perform ⟨true, false, true⟩ ⟨["A=x".toList], true⟩ (.setenv "B".toList "y".toList true) =
        (-1, none) := by
  decide

end Setting

end Clib4.Stdlib
