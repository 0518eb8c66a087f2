import Mathlib.Data.List.Perm.Basic

namespace Clib4.Unistd

open List

/-!
# Long options

`parse_long_option()`, with which `getopt_long()` looks an option up.  The text
may be cut short as long as it is clear what is meant, and an entry with that
very name is always meant.  The loop over the table gives up at the second entry
that is longer than the text, before it can see an exact one behind it.
-/

/-- The values of `has_arg`; any other one means the same as `no_argument`. -/
inductive HasArg
  | noArgument
  | requiredArgument
  | optionalArgument
  deriving DecidableEq, Repr

structure LongOption where
  name : List Char
  hasArg : HasArg
  /-- The variable to be set, unless it is `NULL`. -/
  flag : Option Nat
  val : Int
  deriving DecidableEq, Repr

/-- The variables of `getopt`, what was stored through `flag`, and what was printed. -/
structure Getopt where
  optind : Nat
  optarg : Option (List Char)
  optopt : Int
  stored : List (Nat × Int)
  printed : List (List Char)
  deriving DecidableEq, Repr

/-- What the function returns, and `*longindex`; `none` stands for -1. -/
structure ParsedOption where
  result : Int
  longindex : Option Nat
  state : Getopt
  deriving DecidableEq, Repr

def questionMark : Int := '?'.toNat

/-- The end of the function, behind the argument of the option. -/
def acceptOption (option : LongOption) (st : Getopt) : Int × Getopt :=
  match option.flag with
  | some target => (0, { st with optopt := 0, stored := st.stored ++ [(target, option.val)] })
  | none => (option.val, { st with optopt := option.val })

def refuseOption (opterr : Bool) (argv : List (List Char)) (text : String) (option : LongOption)
    (st : Getopt) : Int × Getopt :=
  let message := argv.headD [] ++ text.toList ++ option.name ++ ['\n']
  (questionMark, { st with optarg := none, printed := st.printed ++ if opterr then [message] else [] })

def useOption (opterr : Bool) (argv : List (List Char)) (option : LongOption)
    (argument : Option (List Char)) (st : Getopt) : Int × Getopt :=
  match option.hasArg, argument with
  | .optionalArgument, _ => acceptOption option { st with optarg := argument }
  | .requiredArgument, some text => acceptOption option { st with optarg := some text }
  | .requiredArgument, none =>
    if st.optind < argv.length then
      acceptOption option { st with optarg := argv[st.optind]?, optind := st.optind + 1 }
    else refuseOption opterr argv ": option requires an argument -- " option st
  | .noArgument, some _ =>
    refuseOption opterr argv ": option does not take an argument -- " option st
  | .noArgument, none => acceptOption option { st with optarg := none }

/-- The entry begins with the text (`strncmp`). -/
def Begins (key : List Char) (option : LongOption) : Prop := option.name.take key.length = key

instance (key : List Char) : DecidablePred (Begins key) := fun _ => inferInstanceAs (Decidable (_ = _))

/-- The loop over the entries with their indexes; `none` is the return in the
middle of it, when a second entry is longer than the text. -/
def matchOption (key : List Char) :
    Option (LongOption × Nat) -> List (LongOption × Nat) -> Option (Option (LongOption × Nat))
  | idx, [] => some idx
  | idx, entry :: rest =>
    if ¬ Begins key entry.1 then matchOption key idx rest
    else if entry.1.name.length = key.length then some (some entry)
    else if idx.isSome then none
    else matchOption key (some entry) rest

/-- The text between `--` and an equals sign. -/
def optionKey (argv : List (List Char)) (st : Getopt) : List Char :=
  ((argv.getD st.optind []).drop 2).takeWhile (· ≠ '=')

def optionArgument (argv : List (List Char)) (st : Getopt) : Option (List Char) :=
  let current := (argv.getD st.optind []).drop 2
  let keylen := (optionKey argv st).length
  if keylen < current.length then some (current.drop (keylen + 1)) else none

def parseLongOption (opterr : Bool) (argv : List (List Char)) (longopts : List LongOption)
    (st : Getopt) : ParsedOption :=
  let next := { st with optind := st.optind + 1 }
  match matchOption (optionKey argv st) none longopts.zipIdx with
  | none => ⟨questionMark, none, next⟩
  | some none => ⟨questionMark, none, { next with optopt := 0 }⟩
  | some (some (option, i)) =>
    let used := useOption opterr argv option (optionArgument argv st) next
    ⟨used.1, some i, used.2⟩

def ParsedOption.entry (parsed : ParsedOption) (longopts : List LongOption) : Option LongOption :=
  parsed.longindex.bind (longopts[·]?)

def Longer (key : List Char) (option : LongOption) : Prop :=
  Begins key option /\ option.name ≠ key

instance (key : List Char) : DecidablePred (Longer key) := fun _ => inferInstanceAs (Decidable (_ /\ _))

def onlyOption : List LongOption -> Option LongOption
  | [option] => some option
  | _ => none

/-- The entry that should be selected: one with that name, or else the only one
that begins with the text. -/
def meantOption (key : List Char) (longopts : List LongOption) : Option LongOption :=
  match longopts.filter (·.name = key) with
  | named :: _ => some named
  | [] => onlyOption (longopts.filter (Begins key))

/-! ## What the loop finds -/

variable {key : List Char} {option : LongOption} {longopts table : List LongOption}

theorem begins_of_eq (same : option.name = key) : Begins key option := by
  rw [Begins, same]
  exact take_length

theorem length_eq_iff (begins : Begins key option) :
    option.name.length = key.length <-> option.name = key := by
  constructor
  · intro size
    rwa [Begins, <- size, take_length] at begins
  · exact congrArg List.length

def pickOption (key : List Char) : List LongOption -> Option (Option LongOption)
  | [] => some none
  | [option] => some (some option)
  | first :: second :: _ =>
    if first.name = key then some (some first)
    else if second.name = key then some (some second)
    else none

theorem matchOption_eq (idx : Option (LongOption × Nat)) (entries : List (LongOption × Nat))
    (longer : ∀ entry ∈ idx, entry.1.name ≠ key) :
    (matchOption key idx entries).map (Option.map Prod.fst) =
      pickOption key ((idx.map Prod.fst).toList ++ (entries.map Prod.fst).filter (Begins key)) := by
  induction entries generalizing idx with
  | nil => cases idx <;> rfl
  | cons entry rest ih =>
    rw [matchOption, map_cons, filter_cons]
    by_cases begins : Begins key entry.1
    · rw [if_neg (not_not.mpr begins), if_pos (decide_eq_true begins)]
      by_cases named : entry.1.name = key
      · cases idx with
        | none => cases (rest.map Prod.fst).filter (Begins key) <;> simp [pickOption, named]
        | some first => simp [pickOption, longer first rfl, named]
      · rw [if_neg (mt (length_eq_iff begins).mp named)]
        cases idx with
        | none =>
          refine ih (some entry) fun other same => ?_
          cases same
          exact named
        | some first => simp [pickOption, longer first rfl, named]
    · rw [if_pos begins, if_neg (by simpa using begins), ih idx longer]

theorem matchOption_mem {idx : Option (LongOption × Nat)} {entries : List (LongOption × Nat)}
    {entry : LongOption × Nat} (found : matchOption key idx entries = some (some entry)) :
    idx = some entry \/ entry ∈ entries := by
  induction entries generalizing idx with
  | nil => exact Or.inl (Option.some.inj found)
  | cons first rest ih =>
    rw [matchOption] at found
    split_ifs at found
    · exact Or.inr (Option.some.inj (Option.some.inj found) ▸ mem_cons_self)
    · rcases ih found with same | mem
      · exact Or.inr (Option.some.inj same ▸ mem_cons_self)
      · exact Or.inr (mem_cons_of_mem _ mem)
    · exact (ih found).imp_right (mem_cons_of_mem _)

variable {begun : List LongOption}

theorem pickOption_of_exact (present : option ∈ begun)
    (only : ∀ other ∈ begun, other.name = key -> other = option)
    (few : begun.countP (·.name ≠ key) <= 1) : pickOption key begun = some (some option) := by
  rcases begun with _ | ⟨first, _ | ⟨second, rest⟩⟩
  · cases present
  · rw [mem_singleton.mp present]
    rfl
  · rw [pickOption]
    split_ifs with isFirst isSecond
    · rw [only first (by simp) isFirst]
    · rw [only second (by simp) isSecond]
    · simp [isFirst, isSecond] at few

theorem pickOption_of_no_exact (noExact : ∀ option ∈ begun, option.name ≠ key) :
    (pickOption key begun).join = onlyOption begun := by
  rcases begun with _ | ⟨first, _ | ⟨second, rest⟩⟩
  · rfl
  · rfl
  · simp [pickOption, onlyOption, noExact first, noExact second]

theorem pickOption_perm {begun others : List LongOption} (perm : begun.Perm others)
    (noExact : ∀ option ∈ others, option.name ≠ key) :
    pickOption key begun = pickOption key others := by
  have noExact' := fun option mem => noExact option (perm.mem_iff.mp mem)
  rcases begun with _ | ⟨first, _ | ⟨second, rest⟩⟩
  · rw [nil_perm.mp perm]
  · rw [singleton_perm.mp perm]
  · rcases others with _ | ⟨third, _ | ⟨fourth, others⟩⟩
    · cases perm.length_eq
    · cases perm.length_eq
    · simp [pickOption, noExact third, noExact fourth, noExact' first, noExact' second]

/-! ## What the caller sees -/

/-- The result, the entry that was selected, and the variables. -/
def ParsedOption.view (parsed : ParsedOption) (longopts : List LongOption) :
    Int × Option LongOption × Getopt :=
  (parsed.result, parsed.entry longopts, parsed.state)

def optionOutcome (opterr : Bool) (argv : List (List Char)) (st : Getopt) :
    Option (Option LongOption) -> Int × Option LongOption × Getopt
  | none => (questionMark, none, { st with optind := st.optind + 1 })
  | some none => (questionMark, none, { st with optind := st.optind + 1, optopt := 0 })
  | some (some option) =>
    let used := useOption opterr argv option (optionArgument argv st)
      { st with optind := st.optind + 1 }
    (used.1, some option, used.2)

variable (opterr : Bool) (argv : List (List Char)) (st : Getopt)

theorem parseLongOption_view (longopts : List LongOption) :
    (parseLongOption opterr argv longopts st).view longopts = optionOutcome opterr argv st
        (pickOption (optionKey argv st) (longopts.filter (Begins (optionKey argv st)))) := by
  have picked := @matchOption_eq (optionKey argv st) none longopts.zipIdx nofun
  rw [zipIdx_map_fst] at picked
  refine Eq.trans ?_ (congrArg _ picked)
  unfold parseLongOption
  cases found : matchOption (optionKey argv st) none longopts.zipIdx with
  | none => rfl
  | some found' =>
    cases found' with
    | none => rfl
    | some entry =>
      have mem := (matchOption_mem found).resolve_left nofun
      have here := mk_mem_zipIdx_iff_getElem?.mp mem
      simp [ParsedOption.view, ParsedOption.entry, optionOutcome, here]

theorem optionOutcome_entry (found : Option (Option LongOption)) :
    (optionOutcome opterr argv st found).2.1 = found.join /\
      (found.join = none -> (optionOutcome opterr argv st found).1 = questionMark) := by
  rcases found with _ | _ | option
  · exact ⟨rfl, fun _ => rfl⟩
  · exact ⟨rfl, fun _ => rfl⟩
  · exact ⟨rfl, nofun⟩

theorem meantOption_of_exact (named : option.name = key) (present : option ∈ longopts)
    (only : ∀ other ∈ longopts, other.name = key -> other = option) :
    meantOption key longopts = some option := by
  unfold meantOption
  split
  · rename_i found rest equal
    have mem := equal ▸ mem_cons_self
    rw [mem_filter, decide_eq_true_iff] at mem
    rw [only found mem.1 mem.2]
  · rename_i none
    exact absurd named (by simpa using filter_eq_nil_iff.mp none option present)

theorem meantOption_of_no_exact (noExact : ∀ option ∈ longopts, option.name ≠ key) :
    meantOption key longopts = (pickOption key (longopts.filter (Begins key))).join := by
  rw [meantOption, filter_eq_nil_iff.mpr fun option mem => by
    simpa using noExact option mem, pickOption_of_no_exact fun option mem =>
    noExact option (mem_of_mem_filter mem)]

/-- In whatever order the table is, the right entry is selected and the caller
sees the same, exactly if no two different entries have the name given and, where
there is one, at most one entry is longer. -/
theorem parseLongOption_selects_iff (longopts : List LongOption) :
    (∀ table, table.Perm longopts ->
      (parseLongOption opterr argv table st).entry table = meantOption (optionKey argv st) table /\
      (meantOption (optionKey argv st) table = none ->
        (parseLongOption opterr argv table st).result = questionMark) /\
      (parseLongOption opterr argv table st).view table =
        (parseLongOption opterr argv longopts st).view longopts) <->
      (∀ option ∈ longopts, ∀ other ∈ longopts, option.name = optionKey argv st ->
        other.name = optionKey argv st -> other = option) /\
      ((∃ option ∈ longopts, option.name = optionKey argv st) ->
        longopts.countP (Longer (optionKey argv st)) <= 1) := by
  generalize keyEq : optionKey argv st = key
  constructor
  · intro right
    have atFront {option : LongOption} (mem : option ∈ longopts) (named : option.name = key) :
        ((parseLongOption opterr argv longopts st).view longopts).2.1 = some option := by
      rw [<- (right _ (perm_cons_erase mem).symm).2.2, parseLongOption_view, keyEq,
        filter_cons_of_pos (by simpa using begins_of_eq named),
        (optionOutcome_entry opterr argv st _).1]
      cases (longopts.erase option).filter (Begins key) <;> simp [pickOption, named]
    constructor
    · intro option mem other otherMember named otherNamed
      exact Option.some.inj ((atFront otherMember otherNamed).symm.trans (atFront mem named))
    · rintro ⟨option, mem, named⟩
      by_contra many
      rw [countP_eq_length_filter] at many
      have perm := filter_append_perm (Longer key) longopts
      have longer : ∀ other ∈ longopts.filter (Longer key), Longer key other :=
        fun other mem => of_decide_eq_true (mem_filter.mp mem).2
      rcases equal : longopts.filter (Longer key) with _ | ⟨first, _ | ⟨second, rest⟩⟩
      · simp [equal] at many
      · simp [equal] at many
      · rw [equal] at perm longer
        have one := longer first (by simp)
        have two := longer second (by simp)
        have given := atFront mem named
        rw [<- (right _ perm).2.2, parseLongOption_view, keyEq, cons_append, cons_append,
          filter_cons_of_pos (by simpa using one.1),
          filter_cons_of_pos (by simpa using two.1), pickOption, if_neg one.2,
          if_neg two.2] at given
        cases given
  · rintro ⟨only, few⟩ table perm
    have begunPerm := perm.filter (Begins key)
    obtain ⟨entry, refused⟩ := optionOutcome_entry opterr argv st
      (pickOption key (table.filter (Begins key)))
    have view := parseLongOption_view opterr argv st
    rw [keyEq] at view
    rw [view, view, show (parseLongOption opterr argv table st).entry table =
      ((parseLongOption opterr argv table st).view table).2.1 from rfl,
      show (parseLongOption opterr argv table st).result =
      ((parseLongOption opterr argv table st).view table).1 from rfl, view, entry]
    by_cases present : ∃ option ∈ longopts, option.name = key
    · obtain ⟨option, mem, named⟩ := present
      have picks {begun : List LongOption} (perm : begun.Perm (longopts.filter (Begins key))) :
          pickOption key begun = some (some option) := by
        refine pickOption_of_exact ?_ (fun other listed => ?_) ?_
        · exact perm.mem_iff.mpr (by simpa using ⟨mem, begins_of_eq named⟩)
        · exact only option mem other (mem_of_mem_filter (perm.mem_iff.mp listed)) named
        · rw [perm.countP_eq, countP_filter]
          simpa [Longer, and_comm] using few ⟨option, mem, named⟩
      rw [picks begunPerm, picks (List.Perm.refl _), meantOption_of_exact named
        (perm.mem_iff.mpr mem) fun other listed =>
          only option mem other (perm.mem_iff.mp listed) named]
      exact ⟨rfl, nofun, rfl⟩
    · have noExact : ∀ option ∈ longopts, option.name ≠ key :=
        fun option mem named => present ⟨option, mem, named⟩
      rw [meantOption_of_no_exact fun option listed => noExact option (perm.mem_iff.mp listed),
        <- pickOption_perm begunPerm fun option listed =>
          noExact option (mem_of_mem_filter listed)]
      exact ⟨rfl, refused, rfl⟩

/-- With `--ver`, the entry `ver` is not found behind `verbose` and `version`. -/
theorem parseLongOption_misses_exact :
    let argv := ["prog".toList, "--ver".toList]
    let table : List LongOption := ["verbose", "version", "ver"].map fun name =>
      ⟨name.toList, .noArgument, none, 1⟩
    let parsed := parseLongOption true argv table ⟨1, none, 0, [], []⟩
    parsed.entry table = none /\ parsed.result = questionMark /\
      meantOption (optionKey argv ⟨1, none, 0, [], []⟩) table =
        some ⟨"ver".toList, .noArgument, none, 1⟩ := by
  decide

end Clib4.Unistd
