import Clib4.Foundation.MachineInt
import Clib4.Unistd.DescriptorRun

namespace Clib4.Unistd

open Foundation

/-!
# `F_DUPFD` and the growth of the table

`__grow_fd_table` and the loop of `F_DUPFD` with the memory they ask for.  The
array of the new table has four bytes for each entry, and its size is computed
in a `size_t`: from `2 ^ 30` entries on the array is too small, and its entries
are written behind its end.  Elsewhere this is what `Table.grow` and
`Table.dupFd` say.
-/

namespace Table

/-! ## The growth -/

/-- What the memory has for one growth: whether the array is given, and how many entries. -/
structure Memory where
  array : Bool
  entries : Nat

/-- The entries that the array of a new table has room for; `malloc` makes a
block of no bytes one of four. -/
def arrayRoom (newNumFd : Nat) : Nat :=
  let size := 4 * newNumFd % 2 ^ 32
  (if size = 0 then 4 else size) / 4

/-- How a growth ends: `overrun` is a write behind the end of the array. -/
inductive Ending
  | done
  | refused
  | overrun
  deriving DecidableEq

/-- The loop that makes the new entries, from `slot` on. -/
def makeEntries (room : Nat) : Nat -> Nat -> Nat -> Ending
  | 0, _, _ => .done
  | missing + 1, slot, entries =>
    -- the pointer is stored before it is looked at
    if room <= slot then .overrun
    else
      match entries with
      | 0 => .refused
      | entries + 1 => makeEntries room missing (slot + 1) entries

def growFdTable (table : Table) (maxFd : Int) (memory : Memory) : Ending × Table :=
  let newNumFd : Int := if maxFd = 0 then table.numFd + 10 else maxFd
  if newNumFd > table.numFd then
    if memory.array then
      match makeEntries (arrayRoom newNumFd.toNat) (newNumFd.toNat - table.numFd) table.numFd
        memory.entries with
      | .done => (.done, { table with numFd := newNumFd.toNat })
      | ending => (ending, table)
    else (.refused, table)
  else (.done, table)

/-! ## `F_DUPFD` -/

/-- What `fcntl(F_DUPFD)` comes to. -/
inductive Outcome
  | returned (result : Int) (table : Table)
  | overrun

/-- The first vacant entry from `base` on. -/
def vacantFrom (table : Table) (base : Nat) : Option Nat :=
  (List.range table.numFd).find? fun slot => decide (base <= slot) && !(table.fds slot).inUse

/-- The loop that looks for a vacant entry and enlarges the table; no memory is
left behind the end of the list. -/
def searchFrom (base fd : Nat) : List Memory -> Table -> Outcome
  | [], table =>
    match table.vacantFrom base with
    | some slot => .returned slot (table.duplicateFd slot fd)
    | none => .returned (-1) table
  | memory :: more, table =>
    match table.vacantFrom base with
    | some slot => .returned slot (table.duplicateFd slot fd)
    | none =>
      match table.growFdTable 0 memory with
      | (.done, larger) => searchFrom base fd more larger
      | (.refused, same) => .returned (-1) same
      | (.overrun, _) => .overrun

/-- `fcntl(F_DUPFD)`; `base + 1` is computed in an `int`. -/
def fcntlDupFd (table : Table) (desc base : Int) (memory : Memory) (more : List Memory) :
    Outcome :=
  match table.get desc with
  | none => .returned (-1) table
  | some fd =>
    if base < 0 then .returned (-1) table
    else
      match table.growFdTable (signed 32 (base + 1)) memory with
      | (.done, larger) => searchFrom base.toNat fd more larger
      | (.refused, same) => .returned (-1) same
      | (.overrun, _) => .overrun

/-! ## Growing -/

variable {newNumFd : Nat}

theorem arrayRoom_of_lt (some : newNumFd ≠ 0) (fits : newNumFd < 2 ^ 30) :
    arrayRoom newNumFd = newNumFd := by
  have size : 4 * newNumFd % 2 ^ 32 = 4 * newNumFd := Nat.mod_eq_of_lt (by omega)
  unfold arrayRoom
  dsimp only
  rw [if_neg (by omega)]
  omega

theorem arrayRoom_lt (many : 2 ^ 30 <= newNumFd) : arrayRoom newNumFd < newNumFd := by
  unfold arrayRoom
  dsimp only
  split_ifs <;> omega

theorem makeEntries_succ {room missing slot entries : Nat} :
    makeEntries room (missing + 1) slot entries =
      if room <= slot then .overrun
      else if entries = 0 then .refused
      else makeEntries room missing (slot + 1) (entries - 1) := by
  cases entries <;> rfl

/-- The loop ends with the entries asked for, at the end of the array or without memory. -/
theorem makeEntries_eq {room missing slot entries : Nat} : makeEntries room missing slot entries =
      if missing <= entries /\ missing <= room - slot then .done
      else if room - slot <= entries then .overrun
      else .refused := by
  induction missing generalizing slot entries with
  | zero => rw [if_pos ⟨Nat.zero_le _, Nat.zero_le _⟩, makeEntries]
  | succ missing ih =>
    rw [makeEntries_succ, ih]
    split_ifs <;> first | rfl | omega

/-- Memory that a table with so many entries can be made from. -/
def Memory.Provides (memory : Memory) (table : Table) (newNumFd : Nat) : Prop :=
  memory.array /\ newNumFd - table.numFd <= memory.entries

instance (memory : Memory) (table : Table) (newNumFd : Nat) :
    Decidable (memory.Provides table newNumFd) := inferInstanceAs (Decidable (_ /\ _))

variable {table : Table}

section

variable {maxFd : Int} (memory : Memory)
  (requested : (if maxFd = 0 then (table.numFd : Int) + 10 else maxFd) = newNumFd)
  (more : table.numFd < newNumFd)
include requested more

theorem growFdTable_fits (fits : newNumFd < 2 ^ 30) : table.growFdTable maxFd memory =
      if memory.Provides table newNumFd then (.done, { table with numFd := newNumFd })
      else (.refused, table) := by
  have room := arrayRoom_of_lt (by omega) fits
  unfold growFdTable
  rw [requested, if_pos (by omega), Int.toNat_natCast, room]
  rw [makeEntries_eq]
  unfold Memory.Provides
  by_cases enough : newNumFd - table.numFd <= memory.entries <;> simp [enough]

theorem growFdTable_short (short : arrayRoom newNumFd < newNumFd) : table.growFdTable maxFd memory =
      if memory.array /\ arrayRoom newNumFd - table.numFd <= memory.entries then
        (.overrun, table)
      else (.refused, table) := by
  unfold growFdTable
  rw [requested, if_pos (by omega)]
  have missing : ¬ newNumFd - table.numFd <= arrayRoom newNumFd - table.numFd := by omega
  rw [makeEntries_eq]
  by_cases reached : arrayRoom newNumFd - table.numFd <= memory.entries <;> simp [missing, reached]

end

theorem growFdTable_zero {memory : Memory} (fits : table.numFd + 10 < 2 ^ 30) :
    table.growFdTable 0 memory =
      if memory.Provides table (table.numFd + 10) then
        (.done, { table with numFd := table.numFd + 10 })
      else (.refused, table) := by
  refine growFdTable_fits memory ?_ (by omega) fits
  rfl

theorem growFdTable_enough {maxFd : Int} (requested : maxFd ≠ 0) (enough : maxFd <= table.numFd)
    {memory : Memory} : table.growFdTable maxFd memory = (.done, table) := by
  unfold growFdTable
  rw [if_neg (by omega)]

theorem growFdTable_eq_grow (maxFd : Nat) (memory : Memory)
    (fits : (if maxFd = 0 then table.numFd + 10 else maxFd) < 2 ^ 30) :
    let newNumFd := if maxFd = 0 then table.numFd + 10 else maxFd
    table.growFdTable maxFd memory =
      match table.grow maxFd (decide (memory.Provides table newNumFd)) with
      | some larger => (.done, larger)
      | none => (.refused, table) := by
  have requested : (if (maxFd : Int) = 0 then (table.numFd : Int) + 10 else maxFd) =
      ((if maxFd = 0 then table.numFd + 10 else maxFd : Nat) : Int) := by
    split_ifs <;> omega
  unfold Table.grow
  dsimp only
  by_cases more : table.numFd < (if maxFd = 0 then table.numFd + 10 else maxFd)
  · rw [growFdTable_fits memory requested more fits, if_pos more]
    simp only [decide_eq_true_eq]
    split_ifs <;> rfl
  · rw [if_neg more]
    exact growFdTable_enough (by omega) (by omega)

/-! ## What `F_DUPFD` is for -/

/-- The least vacant descriptor from `base` on has become an alias of `fd`, and
nothing else has changed but the link of `fd` to its aliases. -/
structure Duplicated (before after : Table) (fd : Nat) (base : Int) (slot : Nat) : Prop where
  lower : base <= slot
  vacant : (before.fds slot).inUse = false
  least : ∀ other : Nat, base <= other -> other < slot -> (before.fds other).inUse
  inside : slot < after.numFd
  duplicate : after.fds slot = { before.fds fd with orig := some fd }
  source : after.fds fd = { before.fds fd with nextAlias := some slot }
  others : ∀ other, other ≠ slot -> other ≠ fd -> after.fds other = before.fds other

/-- A vacant descriptor from `base` on is there, or the table can be enlarged for one. -/
def Serves (table : Table) (base : Int) (memory : Memory) (more : List Memory) : Prop :=
  (∃ slot, base <= (slot : Nat) /\ slot < table.numFd /\ (table.fds slot).inUse = false) \/
    if (table.numFd : Int) <= base then memory.Provides table (base.toNat + 1)
    else ∃ next, more.head? = some next /\ next.Provides table (table.numFd + 10)

/-- The contract of `F_DUPFD`. -/
def DupFdMeets (table : Table) (fd : Nat) (base : Int) (memory : Memory) (more : List Memory)
    (outcome : Outcome) : Prop :=
  (table.Serves base memory more -> ∃ slot after, outcome = .returned (slot : Nat) after /\
    Duplicated table after fd base slot) /\
  (¬ table.Serves base memory more -> ∃ after, outcome = .returned (-1) after /\
    after.fds = table.fds)

/-- The array for `base + 1` entries is too small, is given, and there are
entries to fill it. -/
def Overruns (table : Table) (base : Int) (memory : Memory) : Prop :=
  (table.numFd : Int) <= base /\ base + 1 < 2 ^ 31 /\ memory.array /\
    arrayRoom (base.toNat + 1) < base.toNat + 1 /\
    arrayRoom (base.toNat + 1) - table.numFd <= memory.entries

def InMemory (table : Table) (memory : Memory) (more : List Memory) : Prop :=
  table.numFd + memory.entries + (more.map Memory.entries).sum + 10 < 2 ^ 30

/-! ## Searching -/

theorem vacantFrom_eq_some {base slot : Nat} (found : table.vacantFrom base = some slot) :
    base <= slot /\ slot < table.numFd /\ (table.fds slot).inUse = false /\
      ∀ other, base <= other -> other < slot -> (table.fds other).inUse := by
  have holds := List.find?_some found
  rw [Bool.and_eq_true, Bool.not_eq_true', decide_eq_true_iff] at holds
  refine ⟨holds.1, List.mem_range.mp (List.mem_of_find?_eq_some found), holds.2, ?_⟩
  intro other lower less
  have earlier := (List.find?_range_eq_some.mp found).2.2 other less
  rw [decide_eq_true lower, Bool.true_and, Bool.not_not] at earlier
  exact earlier

theorem vacantFrom_eq_none {base : Nat} (none : table.vacantFrom base = none) {slot : Nat}
    (lower : base <= slot) (inside : slot < table.numFd) : (table.fds slot).inUse := by
  have fails := List.find?_eq_none.mp none slot (List.mem_range.mpr inside)
  rw [decide_eq_true lower, Bool.true_and, Bool.not_eq_true', Bool.not_eq_false] at fails
  exact fails

theorem duplicated_of_vacantFrom {fd base slot : Nat}
    (use : (table.fds fd).inUse) (isOriginal : (table.fds fd).orig = none)
    {larger : Table} (fds : larger.fds = table.fds) (found : larger.vacantFrom base = some slot) :
    Duplicated table (larger.duplicateFd slot fd) fd base slot := by
  obtain ⟨lower, inside, vacant, least⟩ := vacantFrom_eq_some found
  rw [fds] at vacant least
  have differ : slot ≠ fd := by
    rintro rfl
    rw [use] at vacant
    cases vacant
  have orig : (larger.fds fd).orig = none := by rw [fds]; exact isOriginal
  refine ⟨by omega, vacant, fun other above below => least other (by omega) below, inside,
    ?_, ?_, fun other notSlot notFd => ?_⟩
  · rw [duplicateFd_duplicate differ orig, fds]
  · rw [duplicateFd_original differ orig, fds]
  · rw [duplicateFd_of_ne differ orig notSlot notFd, fds]

section Equations

-- the equations hold by definition, and the growth must not be computed to see it
attribute [local irreducible] growFdTable vacantFrom

theorem searchFrom_nil (base fd : Nat) (table : Table) : searchFrom base fd [] table =
      match table.vacantFrom base with
      | some slot => .returned slot (table.duplicateFd slot fd)
      | none => .returned (-1) table :=
  rfl

theorem searchFrom_cons (base fd : Nat) (memory : Memory) (more : List Memory) (table : Table) :
    searchFrom base fd (memory :: more) table =
      match table.vacantFrom base with
      | some slot => .returned slot (table.duplicateFd slot fd)
      | none =>
        match table.growFdTable 0 memory with
        | (.done, larger) => searchFrom base fd more larger
        | (.refused, same) => .returned (-1) same
        | (.overrun, _) => .overrun :=
  rfl

end Equations

theorem searchFrom_found {base fd slot : Nat} {more : List Memory}
    (found : table.vacantFrom base = some slot) :
    searchFrom base fd more table = .returned slot (table.duplicateFd slot fd) := by
  cases more
  · rw [searchFrom_nil, found]
  · rw [searchFrom_cons, found]

theorem searchFrom_larger
    (outside : ∀ slot, table.numFd <= slot -> (table.fds slot).inUse = false) {base fd : Nat}
    (use : (table.fds fd).inUse) (isOriginal : (table.fds fd).orig = none)
    (larger : table.numFd < newNumFd) (beyond : base < newNumFd) {more : List Memory} :
    ∃ slot after,
      searchFrom base fd more { table with numFd := newNumFd } = .returned (slot : Nat) after /\
        Duplicated table after fd base slot := by
  cases found : vacantFrom { table with numFd := newNumFd } base with
  | none =>
    -- the entry behind the old table, or the one asked for
    have used := vacantFrom_eq_none found (Nat.le_max_left base table.numFd) (by
      show max base table.numFd < newNumFd
      omega)
    rw [outside _ (Nat.le_max_right base table.numFd)] at used
    cases used
  | some slot =>
    exact ⟨slot, _, searchFrom_found found, duplicated_of_vacantFrom use isOriginal rfl found⟩

theorem searchFrom_fails {base fd : Nat} (beyond : 2 ^ 30 <= base) {more : List Memory}
    (inMemory : table.numFd + (more.map Memory.entries).sum + 10 < 2 ^ 30) :
    ∃ after, searchFrom base fd more table = .returned (-1) after /\
      after.fds = table.fds := by
  have none : ∀ {larger : Table}, larger.numFd < 2 ^ 30 -> larger.vacantFrom base = none := by
    intro larger small
    cases found : larger.vacantFrom base with
    | none => rfl
    | some slot =>
      obtain ⟨lower, inside, _⟩ := vacantFrom_eq_some found
      omega
  induction more generalizing table with
  | nil =>
    refine ⟨table, ?_, rfl⟩
    rw [searchFrom_nil, none (by omega)]
  | cons memory more ih =>
    rw [List.map_cons, List.sum_cons] at inMemory
    rw [searchFrom_cons, none (by omega)]
    rw [growFdTable_zero (by omega)]
    by_cases provided : memory.Provides table (table.numFd + 10)
    · rw [if_pos provided]
      have left : table.numFd + 10 + (more.map Memory.entries).sum + 10 < 2 ^ 30 := by
        have := provided.2
        omega
      exact @ih { table with numFd := table.numFd + 10 } left
    · rw [if_neg provided]
      exact ⟨table, rfl, rfl⟩

/-! ## The call -/

section Call

variable {desc base : Int} {fd : Nat} {memory : Memory} {more : List Memory}
  {outcome : Outcome} {after : Table}

theorem DupFdMeets.of_success (serves : table.Serves base memory more) {slot : Nat}
    (returned : outcome = .returned slot after) (duplicated : Duplicated table after fd base slot) :
    DupFdMeets table fd base memory more outcome :=
  ⟨fun _ => ⟨slot, after, returned, duplicated⟩, fun fails => absurd serves fails⟩

theorem DupFdMeets.of_failure (fails : ¬ table.Serves base memory more)
    (returned : outcome = .returned (-1) after) (same : after.fds = table.fds) :
    DupFdMeets table fd base memory more outcome :=
  ⟨fun serves => absurd serves fails, fun _ => ⟨after, returned, same⟩⟩

theorem fcntlDupFd_eq (found : table.get desc = some fd) (nonnegative : 0 <= base) :
    table.fcntlDupFd desc base memory more =
      match table.growFdTable (signed 32 (base + 1)) memory with
      | (.done, larger) => searchFrom base.toNat fd more larger
      | (.refused, same) => .returned (-1) same
      | (.overrun, _) => .overrun := by
  unfold fcntlDupFd
  rw [found]
  exact if_neg (by omega)

theorem fcntlDupFd_inside (linked : table.Linked) (found : table.get desc = some fd)
    (nonnegative : 0 <= base) (inside : base < table.numFd)
    (inMemory : table.InMemory memory more) :
    DupFdMeets table fd base memory more (table.fcntlDupFd desc base memory more) := by
  obtain ⟨use, isOriginal, _⟩ := linked.get found
  have number := Int.toNat_of_nonneg nonnegative
  unfold InMemory at inMemory
  have same : signed 32 (base + 1) = base + 1 := signed_of_fits (by omega) (by omega)
  rw [fcntlDupFd_eq found nonnegative, growFdTable_enough (by omega) (by omega)]
  dsimp only
  cases vacancy : table.vacantFrom base.toNat with
  | some slot =>
    obtain ⟨lower, within, vacant, _⟩ := vacantFrom_eq_some vacancy
    have duplicated := duplicated_of_vacantFrom use isOriginal rfl vacancy
    rw [number] at duplicated
    exact .of_success (Or.inl ⟨slot, by omega, within, vacant⟩) (searchFrom_found vacancy)
      duplicated
  | none =>
    have full : ¬ ∃ slot, base <= (slot : Nat) /\ slot < table.numFd /\
        (table.fds slot).inUse = false := by
      rintro ⟨slot, lower, within, vacant⟩
      have used := vacantFrom_eq_none vacancy (by omega) within
      rw [vacant] at used
      cases used
    have serves : table.Serves base memory more <->
        ∃ next, more.head? = some next /\ next.Provides table (table.numFd + 10) := by
      rw [Serves, or_iff_right full, if_neg (by omega)]
    cases more with
    | nil =>
      rw [searchFrom_nil, vacancy]
      refine .of_failure (fun able => ?_) rfl rfl
      rcases serves.mp able with ⟨next, absent, _⟩
      cases absent
    | cons next rest =>
      rw [searchFrom_cons, vacancy]
      rw [growFdTable_zero (by omega)]
      by_cases provided : next.Provides table (table.numFd + 10)
      · rw [if_pos provided]
        have reached : base.toNat < table.numFd + 10 := by omega
        rcases searchFrom_larger linked.outside use isOriginal (by omega) reached with
          ⟨slot, after, returned, duplicated⟩
        rw [number] at duplicated
        exact .of_success (serves.mpr ⟨next, rfl, provided⟩) returned duplicated
      · rw [if_neg provided]
        refine .of_failure (fun able => ?_) rfl rfl
        rcases serves.mp able with ⟨same, head, provides⟩
        cases head
        exact provided provides

theorem serves_beyond (beyond : table.numFd <= base) :
    table.Serves base memory more <-> memory.Provides table (base.toNat + 1) := by
  have none : ¬ ∃ slot, base <= (slot : Nat) /\ slot < table.numFd /\
      (table.fds slot).inUse = false := by
    rintro ⟨slot, lower, within, _⟩
    omega
  rw [Serves, or_iff_right none, if_pos beyond]

theorem requested_base (beyond : table.numFd <= base) :
    (if base + 1 = 0 then (table.numFd : Int) + 10 else base + 1) =
      ((base.toNat + 1 : Nat) : Int) := by
  split_ifs <;> omega

theorem fcntlDupFd_beyond (linked : table.Linked) (found : table.get desc = some fd)
    (beyond : table.numFd <= base) (fits : base + 1 < 2 ^ 30) :
    DupFdMeets table fd base memory more (table.fcntlDupFd desc base memory more) := by
  obtain ⟨use, isOriginal, _⟩ := linked.get found
  have number : ((base.toNat : Nat) : Int) = base := Int.toNat_of_nonneg (by omega)
  have same : signed 32 (base + 1) = base + 1 := signed_of_fits (by omega) (by omega)
  rw [fcntlDupFd_eq found (by omega), same,
    growFdTable_fits memory (requested_base beyond) (by omega) (by omega)]
  by_cases provided : memory.Provides table (base.toNat + 1)
  · rw [if_pos provided]
    have larger : table.numFd < base.toNat + 1 := by omega
    rcases searchFrom_larger linked.outside use isOriginal larger (Nat.lt_succ_self _) with
      ⟨slot, after, returned, duplicated⟩
    rw [number] at duplicated
    exact .of_success ((serves_beyond beyond).mpr provided) returned duplicated
  · rw [if_neg provided]
    exact .of_failure (fun able => provided ((serves_beyond beyond).mp able)) rfl rfl

theorem fcntlDupFd_far (found : table.get desc = some fd) (beyond : table.numFd <= base)
    (far : 2 ^ 30 <= base + 1) (isInt : base < 2 ^ 31) (inMemory : table.InMemory memory more) :
    DupFdMeets table fd base memory more (table.fcntlDupFd desc base memory more) <->
      ¬ table.Overruns base memory := by
  unfold InMemory at inMemory
  have fails : ¬ table.Serves base memory more := by
    intro serves
    have := ((serves_beyond beyond).mp serves).2
    omega
  rw [fcntlDupFd_eq found (by omega)]
  by_cases largest : base = 2147483647
  · -- the successor of the base is negative, and the table is searched as it is
    have wrapped : signed 32 (base + 1) = -2147483648 := by
      rw [largest]
      decide
    rw [wrapped]
    have away : 2 ^ 30 <= base.toNat := by omega
    have left : table.numFd + (more.map Memory.entries).sum + 10 < 2 ^ 30 := by omega
    rcases searchFrom_fails away left with ⟨after, returned, same⟩
    refine iff_of_true (.of_failure fails returned same) fun overruns => ?_
    have := overruns.2.1
    omega
  · have same : signed 32 (base + 1) = base + 1 := signed_of_fits (by omega) (by omega)
    have many : 2 ^ 30 <= base.toNat + 1 := by omega
    have room := arrayRoom_lt many
    rw [same, growFdTable_short memory (requested_base beyond) (by omega) room]
    by_cases overruns : memory.array /\
        arrayRoom (base.toNat + 1) - table.numFd <= memory.entries
    · rw [if_pos overruns]
      refine iff_of_false (fun meets => ?_)
        (not_not_intro ⟨beyond, by omega, overruns.1, room, overruns.2⟩)
      rcases meets.2 fails with ⟨after, returned, _⟩
      cases returned
    · rw [if_neg overruns]
      exact iff_of_true (.of_failure fails rfl rfl) fun all =>
        overruns ⟨all.2.2.1, all.2.2.2.2⟩

theorem provides_ten {next : Memory} : decide (next.Provides table (table.numFd + 10)) =
      (next.array && decide (10 <= next.entries)) := by
  rw [Bool.eq_iff_iff, decide_eq_true_iff, Bool.and_eq_true, decide_eq_true_iff]
  unfold Memory.Provides
  rw [Nat.add_sub_cancel_left]

theorem grow_numFd_le {maxFd : Nat} {memory : Bool} {larger : Table}
    (grown : table.grow (maxFd + 1) memory = some larger) :
    larger.numFd <= max table.numFd (maxFd + 1) := by
  unfold Table.grow at grown
  dsimp only at grown
  rw [if_neg (Nat.succ_ne_zero maxFd)] at grown
  split_ifs at grown with more given <;> cases grown
  · exact Nat.le_max_right _ _
  · exact Nat.le_max_left _ _

theorem searchFrom_eq {base : Nat} (next : Memory) (fits : table.numFd + 10 < 2 ^ 30) :
    searchFrom base fd [next] table =
      match table.vacantFrom base with
      | some slot => .returned slot (table.duplicateFd slot fd)
      | none =>
        match table.grow 0 (decide (next.Provides table (table.numFd + 10))) with
        | none => .returned (-1) table
        | some larger =>
          match larger.vacantFrom base with
          | some slot => .returned slot (larger.duplicateFd slot fd)
          | none => .returned (-1) larger := by
  rw [searchFrom_cons]
  cases table.vacantFrom base with
  | some slot => rfl
  | none =>
    have grown := growFdTable_eq_grow 0 next fits
    rw [if_pos rfl, Nat.cast_zero] at grown
    rw [grown]
    cases table.grow 0 (decide (next.Provides table (table.numFd + 10))) with
    | none => rfl
    | some larger =>
      dsimp only
      rw [searchFrom_nil]

theorem dupFd_eq {enough moreEnough : Bool} (found : table.get desc = some fd)
    (nonnegative : 0 <= base) :
    table.dupFd desc base enough moreEnough =
      match table.grow (base.toNat + 1) enough with
      | none => (-1, table)
      | some larger =>
        match larger.vacantFrom base.toNat with
        | some slot => (slot, larger.duplicateFd slot fd)
        | none =>
          match larger.grow 0 moreEnough with
          | none => (-1, larger)
          | some largest =>
            match largest.vacantFrom base.toNat with
            | some slot => (slot, largest.duplicateFd slot fd)
            | none => (-1, largest) := by
  unfold dupFd
  rw [found]
  exact if_neg (by omega)

/-- With room for all entries the call is `Table.dupFd`. -/
theorem fcntlDupFd_eq_dupFd {next : Memory} (few : table.numFd + 10 < 2 ^ 30)
    (small : base + 11 < 2 ^ 30) (found : table.get desc = some fd)
    (nonnegative : 0 <= base) :
    table.fcntlDupFd desc base memory [next] =
      (let result := table.dupFd desc base
        (decide (memory.Provides table (base.toNat + 1)))
        (next.array && decide (10 <= next.entries))
      .returned result.1 result.2) := by
  have requested : ((base.toNat + 1 : Nat) : Int) = signed 32 (base + 1) := by
    rw [signed_of_fits (by omega) (by omega)]
    omega
  have fits : (if base.toNat + 1 = 0 then table.numFd + 10 else base.toNat + 1) < 2 ^ 30 := by
    rw [if_neg (Nat.succ_ne_zero _)]
    omega
  have grown := growFdTable_eq_grow (base.toNat + 1) memory fits
  rw [requested, if_neg (Nat.succ_ne_zero _)] at grown
  rw [fcntlDupFd_eq found nonnegative, grown, dupFd_eq found nonnegative]
  cases enlarged : table.grow (base.toNat + 1)
      (decide (memory.Provides table (base.toNat + 1))) with
  | none => rfl
  | some larger =>
    have size := grow_numFd_le enlarged
    dsimp only
    rw [searchFrom_eq next (by omega), provides_ten]
    cases larger.vacantFrom base.toNat with
    | some slot => rfl
    | none =>
      cases larger.grow 0 (next.array && decide (10 <= next.entries)) with
      | none => rfl
      | some largest =>
        dsimp only
        cases largest.vacantFrom base.toNat <;> rfl

/-- For every table, open descriptor, base and memory: `F_DUPFD` returns the least
vacant descriptor from the base on and changes no other entry, or fails and
changes none when the table cannot grow, exactly when the base is not negative
(or the call has to fail anyway) and no array of the new table is overrun. -/
theorem fcntl_dupfd_iff (table : Table) (linked : table.Linked) (desc : Int) (fd : Nat)
    (found : table.get desc = some fd) (base : Int)
    (isInt : -2 ^ 31 <= base /\ base < 2 ^ 31) (memory : Memory) (more : List Memory)
    (inMemory : table.InMemory memory more) :
    DupFdMeets table fd base memory more (table.fcntlDupFd desc base memory more) <->
      (0 <= base \/ ¬ table.Serves base memory more) /\ ¬ table.Overruns base memory := by
  rcases lt_or_ge base 0 with negative | nonnegative
  · have refused : table.fcntlDupFd desc base memory more = .returned (-1) table := by
      unfold fcntlDupFd
      rw [found]
      exact if_pos negative
    have within : ¬ table.Overruns base memory := fun overruns => by
      have := overruns.1
      omega
    rw [refused, and_iff_left within, or_iff_right (by omega)]
    constructor
    · intro meets serves
      rcases meets.1 serves with ⟨slot, after, returned, _⟩
      have failed := (Outcome.returned.inj returned).1
      omega
    · intro fails
      exact .of_failure fails rfl rfl
  · rw [and_iff_right (Or.inl nonnegative)]
    rcases lt_or_ge base table.numFd with inside | beyond
    · refine iff_of_true (fcntlDupFd_inside linked found nonnegative inside inMemory)
        fun overruns => ?_
      have := overruns.1
      omega
    · rcases lt_or_ge (base + 1) (2 ^ 30) with fits | far
      · refine iff_of_true (fcntlDupFd_beyond linked found beyond fits) fun overruns => ?_
        have room := overruns.2.2.2.1
        rw [arrayRoom_of_lt (by omega) (by omega)] at room
        exact Nat.lt_irrefl _ room
      · exact fcntlDupFd_far found beyond far isInt.2 inMemory

end Call

theorem fcntlDupFd_of_standard_output : initial.fcntlDupFd 1 5 ⟨true, 3⟩ [⟨true, 10⟩] =
    .returned 5 (initial.dupFd 1 5 true true).2 :=
  fcntlDupFd_eq_dupFd (by decide) (by decide) rfl (by decide)

theorem fcntl_dupfd_of_standard_output :
    initial.Linked /\ initial.get 1 = some 1 /\ initial.InMemory ⟨true, 3⟩ [] /\
      DupFdMeets initial 1 5 ⟨true, 3⟩ [] (initial.fcntlDupFd 1 5 ⟨true, 3⟩ []) := by
  have inMemory : initial.InMemory ⟨true, 3⟩ [] := by
    unfold InMemory
    decide
  refine ⟨linked_initial, rfl, inMemory, ?_⟩
  refine (fcntl_dupfd_iff initial linked_initial 1 1 rfl 5 ⟨by decide, by decide⟩ ⟨true, 3⟩ []
    inMemory).mpr ⟨Or.inl (by decide), fun overruns => ?_⟩
  exact absurd overruns.2.2.2.1 (by decide)

/-- A new table of `2 ^ 30` entries: the array has four bytes, and the fourth
entry is written behind its end. -/
theorem fcntl_dupfd_overruns : initial.InMemory ⟨true, 1⟩ [] /\
      initial.fcntlDupFd 1 1073741823 ⟨true, 1⟩ [] = .overrun /\
      ¬ DupFdMeets initial 1 1073741823 ⟨true, 1⟩ []
        (initial.fcntlDupFd 1 1073741823 ⟨true, 1⟩ []) := by
  have overrun : initial.fcntlDupFd 1 1073741823 ⟨true, 1⟩ [] = .overrun := by
    rfl
  refine ⟨by unfold InMemory; decide, overrun, fun meets => ?_⟩
  by_cases serves : initial.Serves 1073741823 ⟨true, 1⟩ []
  · rcases meets.1 serves with ⟨slot, after, returned, _⟩
    cases returned
  · rcases meets.2 serves with ⟨after, returned, _⟩
    cases returned

end Table

end Clib4.Unistd
