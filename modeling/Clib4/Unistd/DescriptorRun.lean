import Clib4.Unistd.Aliases

namespace Clib4.Unistd

/-!
# Runs of descriptor calls

What `open()`, `close()`, `dup()`, `dup2()` and `fcntl(F_DUPFD)` keep up in any
order, and when they do.
-/

namespace Table

/-- What holds of the descriptors that share a file: one of them is the
original, the others refer to it, and it leads to each of them once. -/
structure Grouped (table : Table) : Prop where
  orig : ∀ slot, (table.fds slot).inUse ->
    ∃ orig, (table.fds orig).inUse /\ (table.fds orig).orig = none /\
      (table.fds orig).file = (table.fds slot).file /\
      (∀ mem, (table.fds mem).inUse ->
        (table.fds mem).file.serial = (table.fds slot).file.serial ->
        mem = orig \/ (table.fds mem).orig = some orig) /\
      ∃ aliases, table.HasAliases orig aliases /\ ∀ mem, mem ∈ aliases <->
          (table.fds mem).inUse /\ mem ≠ orig /\
            (table.fds mem).file.serial = (table.fds slot).file.serial

/-- Closing a directory, or a path, does not take it out of its group. -/
def MayClose (table : Table) (fd : Nat) : Prop :=
  (table.fds fd).file.isZero \/
    (table.fds fd).isDirectory = false /\ (table.fds fd).pathOnly = false \/
      table.isAliased fd = false

def Allowed (table : Table) : Call -> Prop
  | .close desc _ => ∀ fd, table.getExact desc = some fd -> table.MayClose fd
  | .dup2 descriptor1 descriptor2 _ _ =>
    descriptor1 = descriptor2 \/ ∀ fd1, table.get descriptor1 = some fd1 ->
        0 <= descriptor2 -> descriptor2 <= openMax ->
        table.MayClose descriptor2.toNat /\
          (descriptor2.toNat = fd1 -> (table.fds fd1).file.isZero)
  | _ => True

def AllowedRun (table : Table) : List Call -> Prop
  | [] => True
  | head :: calls => table.Allowed head /\
      ∀ result next, table.call head = some (result, next) -> next.AllowedRun calls

variable {table : Table}

/-! ## Groups -/

theorem Linked.grouped (linked : table.Linked) : table.Grouped where
  orig slot use := by
    -- the entry an in-use descriptor belongs to
    have resolves : ∀ mem, (table.fds mem).inUse -> ∃ orig,
        (mem = orig \/ (table.fds mem).orig = some orig) /\
        (table.fds orig).inUse /\ (table.fds orig).orig = none /\
        (table.fds mem).file = (table.fds orig).file := by
      intro mem memberUse
      cases refers : (table.fds mem).orig with
      | none => exact ⟨mem, Or.inl rfl, memberUse, refers, rfl⟩
      | some orig => exact ⟨orig, Or.inr rfl, linked.aliased mem orig refers⟩
    rcases resolves slot use with ⟨orig, _, originalUse, isOriginal, file⟩
    rcases linked.lists orig originalUse isOriginal with ⟨aliases, has⟩
    have belongs : ∀ mem, (table.fds mem).inUse ->
        (table.fds mem).file.serial = (table.fds slot).file.serial ->
        mem = orig \/ (table.fds mem).orig = some orig := by
      intro mem memberUse same
      rcases resolves mem memberUse with ⟨other, mem, otherUse, otherOriginal, otherFile⟩
      have equal := linked.unique other orig otherUse originalUse otherOriginal isOriginal (by
        rw [<- otherFile, same, file])
      rw [<- equal]
      exact mem
    refine ⟨orig, originalUse, isOriginal, file.symm, belongs, aliases, has, fun mem => ?_⟩
    rw [has.members mem]
    constructor
    · intro refers
      refine ⟨linked.inUse_of_alias refers, ?_, ?_⟩
      · rintro rfl
        rw [isOriginal] at refers
        cases refers
      · rw [(linked.aliased mem orig refers).2.2, file]
    · rintro ⟨memberUse, differ, same⟩
      exact (belongs mem memberUse same).resolve_left differ

/-! ## Entries -/

theorem Linked.grow (linked : table.Linked) {maxFd : Nat} {memory : Bool} {larger : Table}
    (grown : table.grow maxFd memory = some larger) :
    larger.Linked /\ larger.fds = table.fds /\ larger.opened = table.opened /\
      table.numFd <= larger.numFd /\ maxFd <= larger.numFd := by
  unfold Table.grow at grown
  dsimp only at grown
  have requested : maxFd <= (if maxFd = 0 then table.numFd + 10 else maxFd) := by
    split <;> omega
  generalize (if maxFd = 0 then table.numFd + 10 else maxFd) = newNumFd at grown requested
  split at grown
  · rename_i more
    split at grown
    · cases grown
      refine ⟨⟨fun slot beyond => linked.outside slot ((Nat.le_of_lt more).trans beyond),
        linked.vacant, linked.aliased, linked.unique, fun orig use isOriginal => ?_,
        linked.fresh⟩, rfl, rfl, Nat.le_of_lt more, requested⟩
      rcases linked.lists orig use isOriginal with ⟨aliases, has⟩
      exact ⟨aliases, has.congr (fun _ _ => rfl) (fun _ => Iff.rfl)⟩
    · cases grown
  · rename_i enough
    cases grown
    exact ⟨linked, rfl, rfl, le_rfl, requested.trans (not_lt.mp enough)⟩

theorem findVacantFdEntry_eq_some {slot : Nat} (found : table.findVacantFdEntry = some slot) :
    slot < table.numFd /\ (table.fds slot).inUse = false := by
  refine ⟨List.mem_range.mp (List.mem_of_find?_eq_some found), ?_⟩
  simpa using List.find?_some found

theorem Linked.vacantEntry (linked : table.Linked) {memory : Bool} {slot : Nat} {next : Table}
    (found : table.vacantEntry memory = some (slot, next)) :
    next.Linked /\ next.fds = table.fds /\ next.opened = table.opened /\
      slot < next.numFd /\ (next.fds slot).inUse = false := by
  unfold Table.vacantEntry at found
  split at found
  · rename_i here
    cases found
    exact ⟨linked, rfl, rfl, findVacantFdEntry_eq_some here⟩
  · rcases Option.bind_eq_some_iff.mp found with ⟨larger, grown, rest⟩
    rcases Option.bind_eq_some_iff.mp rest with ⟨vacant, here, same⟩
    cases same
    obtain ⟨linkedLarger, fds, opened, _⟩ := linked.grow grown
    exact ⟨linkedLarger, fds, opened, findVacantFdEntry_eq_some here⟩

variable {fd : Nat} {desc : Int}

theorem getExact_eq_some (found : table.getExact desc = some fd) :
    desc = fd /\ (table.fds fd).inUse := by
  unfold getExact at found
  split at found
  · rename_i inside
    split at found
    · rename_i use
      cases found
      exact ⟨(Int.toNat_of_nonneg inside.1).symm, use⟩
    · cases found
  · cases found

theorem getExact_natCast (inside : fd < table.numFd)
    (use : (table.fds fd).inUse) : table.getExact fd = some fd := by
  unfold getExact
  rw [if_pos ⟨Int.natCast_nonneg fd, Int.ofNat_lt.mpr inside⟩, Int.toNat_natCast, if_pos use]

theorem Linked.get (linked : table.Linked) (found : table.get desc = some fd) :
    (table.fds fd).inUse /\ (table.fds fd).orig = none /\
      (table.fds desc.toNat).file = (table.fds fd).file := by
  rcases Option.map_eq_some_iff.mp found with ⟨slot, exactly, resolved⟩
  obtain ⟨same, use⟩ := getExact_eq_some exactly
  rw [same]
  cases refers : (table.fds slot).orig with
  | none =>
    rw [refers] at resolved
    cases resolved
    exact ⟨use, refers, rfl⟩
  | some orig =>
    rw [refers] at resolved
    cases resolved
    exact linked.aliased slot orig refers

/-! ## Closing -/

theorem isAliased_eq_false : table.isAliased fd = false <-> table.Unlinked fd := by
  unfold isAliased Unlinked
  rw [Bool.or_eq_false_iff, Option.isSome_eq_false_iff, Option.isSome_eq_false_iff,
    Option.isNone_iff_eq_none, Option.isNone_iff_eq_none]

theorem Linked.release (linked : table.Linked) (inside : fd < table.numFd)
    (unlinked : table.Unlinked fd) : (table.set fd .zero).Linked :=
  (linked.set_unlinked inside unlinked .zero rfl rfl table.opened le_rfl
    (fun use => by cases use)).linked linked

/-- What a call of the close action leaves, and what it leaves alone. -/
structure Closed (before after : Table) (fd : Nat) (succeeded : Bool) : Prop where
  linked : after.Linked
  numFd : after.numFd = before.numFd
  unlinked : succeeded -> after.Unlinked fd
  originals : ∀ slot, slot ≠ fd -> (before.fds slot).orig = none ->
    (after.fds slot).inUse = (before.fds slot).inUse /\ (after.fds slot).orig = none /\
      (after.fds slot).file = (before.fds slot).file

section

variable (linked : table.Linked)
include linked

theorem Linked.closed_release (inside : fd < table.numFd) (unlinked : table.Unlinked fd)
    (succeeded : Bool) :
    Closed table (table.set fd .zero) fd succeeded where
  linked := linked.release inside unlinked
  numFd := rfl
  unlinked _ := by
    rw [Unlinked, set_fds_self]
    exact ⟨rfl, rfl⟩
  originals slot differ orig := by
    rw [set_fds_of_ne differ]
    exact ⟨rfl, orig, rfl⟩

theorem Linked.closed_unchanged {succeeded : Bool}
    (unlinked : succeeded -> table.Unlinked fd) : Closed table table fd succeeded :=
  ⟨linked, rfl, unlinked, fun _ _ orig => ⟨rfl, orig, rfl⟩⟩

/-- An entry with links is taken out of its group; the other originals keep all
but their link. -/
theorem Linked.unlinked (aliased : table.isAliased fd) :
    ∃ unlinked, table.removeFdAlias fd = some unlinked /\
      (unlinked.set fd .zero).Linked /\ (unlinked.set fd .zero).numFd = table.numFd /\
      ∀ slot, slot ≠ fd -> (table.fds slot).orig = none ->
        ∃ next, (unlinked.set fd .zero).fds slot =
          { table.fds slot with nextAlias := next } := by
  cases refers : (table.fds fd).orig with
  | some orig =>
    rcases linked.detach refers with ⟨unlinked, removed, regrouped, elsewhere⟩
    exact ⟨unlinked, removed, regrouped.linked linked, regrouped.numFd,
      fun slot differ _ => elsewhere slot differ⟩
  | none =>
    cases next : (table.fds fd).nextAlias with
    | none =>
      rw [isAliased_eq_false.mpr ⟨refers, next⟩] at aliased
      cases aliased
    | some firstAlias =>
      rcases linked.promote refers next with ⟨unlinked, removed, regrouped⟩
      refine ⟨unlinked, removed, regrouped.linked linked, regrouped.numFd,
        fun slot differ isOriginal => ⟨(table.fds slot).nextAlias, regrouped.frame slot ?_⟩⟩
      rintro (same | toFd)
      · exact differ same
      · rw [isOriginal] at toFd
        cases toFd

theorem Linked.closed_aliased (aliased : table.isAliased fd) :
    ∃ unlinked, table.removeFdAlias fd = some unlinked /\
      Closed table (unlinked.set fd .zero) fd true := by
  rcases linked.unlinked aliased with ⟨unlinked, removed, stillLinked, numFd, elsewhere⟩
  refine ⟨unlinked, removed, stillLinked, numFd, fun _ => ?_,
    fun slot differ isOriginal => ?_⟩
  · rw [Unlinked, set_fds_self]
    exact ⟨rfl, rfl⟩
  · rcases elsewhere slot differ isOriginal with ⟨next, entry⟩
    rw [entry]
    exact ⟨rfl, isOriginal, rfl⟩

theorem Linked.closeAction (inside : fd < table.numFd) (mayClose : table.MayClose fd)
    (answers : CloseAnswers) :
    ∃ succeeded after, table.closeAction fd answers = some (succeeded, after) /\
      Closed table after fd succeeded := by
  unfold Table.closeAction
  by_cases zero : (table.fds fd).file.isZero
  · rw [if_pos zero]
    exact ⟨false, table, rfl, linked.closed_unchanged (fun absurd => by cases absurd)⟩
  · rw [if_neg zero]
    cases aliased : table.isAliased fd with
    | true =>
      have plain : ¬ ((table.fds fd).isDirectory || (table.fds fd).pathOnly) := by
        rcases mayClose with isZero | ⟨file, notPath⟩ | notAliased
        · exact (zero isZero).elim
        · rw [file, notPath]
          exact Bool.false_ne_true
        · rw [aliased] at notAliased
          cases notAliased
      rcases linked.closed_aliased aliased with ⟨unlinked, removed, closed⟩
      rw [if_neg plain, removed]
      exact ⟨true, _, rfl, closed⟩
    | false =>
      have unlinked := isAliased_eq_false.mp aliased
      rw [if_neg Bool.false_ne_true]
      split
      · exact ⟨true, _, rfl, linked.closed_release inside unlinked true⟩
      · split
        · exact ⟨true, _, rfl, linked.closed_release inside unlinked true⟩
        · split
          · exact ⟨true, _, rfl, linked.closed_unchanged (fun _ => unlinked)⟩
          · exact ⟨answers.closed, _, rfl, linked.closed_release inside unlinked _⟩

theorem Linked.close (use : (table.fds fd).inUse) (mayClose : table.MayClose fd)
    (answers : CloseAnswers) :
    ∃ succeeded after, table.close fd answers = some (if succeeded then 0 else -1, after) /\
      Closed table after fd succeeded := by
  have inside := linked.slot_lt use
  rcases linked.closeAction inside mayClose answers with ⟨succeeded, after, result, closed⟩
  refine ⟨succeeded, after, ?_, closed⟩
  unfold Table.close
  rw [getExact_natCast inside use]
  dsimp only
  rw [result]
  rfl

/-! ## Duplicating -/

theorem Linked.duplicate {duplicate orig : Nat} (inside : duplicate < table.numFd)
    (unlinked : table.Unlinked duplicate) (differ : duplicate ≠ orig)
    (use : (table.fds orig).inUse) (isOriginal : (table.fds orig).orig = none) :
    (table.duplicateFd duplicate orig).Linked /\
      ((table.duplicateFd duplicate orig).fds duplicate).inUse /\
      ((table.duplicateFd duplicate orig).fds duplicate).file = (table.fds orig).file := by
  have entry := duplicateFd_duplicate differ isOriginal
  refine ⟨(linked.duplicateFd differ isOriginal inside unlinked use).linked linked, ?_, ?_⟩
  · rw [entry]
    exact use
  · rw [entry]

theorem Linked.openFile (outcome : OpenOutcome) (memory : Bool) :
    (table.openFile outcome memory).2.Linked := by
  unfold Table.openFile
  cases outcome with
  | refused => exact linked
  | failed =>
    dsimp only
    split
    · exact linked
    · rename_i found
      exact (linked.vacantEntry found).1
  | opened isDirectory pathOnly =>
    dsimp only
    split
    · exact linked
    · rename_i slot next found
      obtain ⟨nextLinked, _, _, inside, vacant⟩ := linked.vacantEntry found
      refine (nextLinked.set_unlinked inside (nextLinked.vacant slot vacant) _ rfl rfl
        (next.opened + 1) (Nat.le_succ _) fun _ => ?_).linked nextLinked
      exact ⟨le_rfl, Nat.lt_succ_self _⟩

end

/-- What `dup()` and `F_DUPFD` do for the original of a descriptor: they fail, or
make a vacant entry an alias of it. -/
inductive Duplicates (table : Table) (fd : Nat) : Int × Table -> Prop
  | failed {next : Table} (linked : next.Linked) : Duplicates table fd (-1, next)
  | made {next : Table} {slot : Nat} (linked : next.Linked) (fds : next.fds = table.fds)
      (inside : slot < next.numFd) (vacant : (next.fds slot).inUse = false) :
      Duplicates table fd (slot, next.duplicateFd slot fd)

theorem Linked.dup_cases (linked : table.Linked) {desc : Int}
    (resolved : table.get desc = some fd) (memory : Bool) :
    Duplicates table fd (table.dup desc memory) := by
  unfold Table.dup
  rw [resolved]
  dsimp only
  split
  · exact .failed linked
  · rename_i slot next found
    obtain ⟨nextLinked, fds, _, inside, vacant⟩ := linked.vacantEntry found
    exact .made nextLinked fds inside vacant

theorem Linked.dupFd_cases (linked : table.Linked) {desc : Int}
    (resolved : table.get desc = some fd) (base : Int) (memory memoryMore : Bool) :
    Duplicates table fd (table.dupFd desc base memory memoryMore) := by
  have made : ∀ {next : Table} {slot : Nat}, next.Linked -> next.fds = table.fds ->
      ((List.range next.numFd).find? fun slot =>
        decide (base.toNat <= slot) && !(next.fds slot).inUse) = some slot ->
      Duplicates table fd (slot, next.duplicateFd slot fd) := by
    intro next slot nextLinked fds found
    have holds := List.find?_some found
    rw [Bool.and_eq_true, Bool.not_eq_true'] at holds
    exact .made nextLinked fds (List.mem_range.mp (List.mem_of_find?_eq_some found)) holds.2
  unfold Table.dupFd
  rw [resolved]
  dsimp only
  split
  · exact .failed linked
  · split
    · exact .failed linked
    · rename_i larger grown
      obtain ⟨largerLinked, fds, _⟩ := linked.grow grown
      split
      · rename_i slot found
        exact made largerLinked fds found
      · split
        · exact .failed largerLinked
        · rename_i largest grownMore
          obtain ⟨largestLinked, same, _⟩ := largerLinked.grow grownMore
          split
          · rename_i slot found
            exact made largestLinked (same.trans fds) found
          · exact .failed largestLinked

theorem Duplicates.linked {outcome : Int × Table} (duplicates : Duplicates table fd outcome)
    (use : (table.fds fd).inUse) (isOriginal : (table.fds fd).orig = none) :
    outcome.2.Linked := by
  cases duplicates with
  | failed linked => exact linked
  | made linked fds inside vacant =>
    rw [<- fds] at use isOriginal
    refine (linked.duplicate inside (linked.vacant _ vacant) ?_ use isOriginal).1
    rintro rfl
    rw [use] at vacant
    cases vacant

theorem Linked.dup (linked : table.Linked) (desc : Int) (memory : Bool) :
    (table.dup desc memory).2.Linked := by
  cases resolved : table.get desc with
  | none =>
    unfold Table.dup
    rw [resolved]
    exact linked
  | some fd =>
    obtain ⟨use, isOriginal, _⟩ := linked.get resolved
    exact (linked.dup_cases resolved memory).linked use isOriginal

theorem Linked.dupFd (linked : table.Linked) (desc base : Int) (memory memoryMore : Bool) :
    (table.dupFd desc base memory memoryMore).2.Linked := by
  cases resolved : table.get desc with
  | none =>
    unfold Table.dupFd
    rw [resolved]
    exact linked
  | some fd =>
    obtain ⟨use, isOriginal, _⟩ := linked.get resolved
    exact (linked.dupFd_cases resolved base memory memoryMore).linked use isOriginal

/-- The call returns, keeps the links in order, and where it succeeds the second
descriptor refers to the file of the first. -/
theorem Linked.dup2 (linked : table.Linked) (descriptor1 descriptor2 : Int) (memory : Bool)
    (answers : CloseAnswers)
    (allowed : table.Allowed (.dup2 descriptor1 descriptor2 memory answers)) :
    ∃ result next, table.dup2 descriptor1 descriptor2 memory answers = some (result, next) /\
      next.Linked /\ (result ≠ -1 -> (next.fds descriptor2.toNat).inUse /\
        (next.fds descriptor2.toNat).file = (table.fds descriptor1.toNat).file) := by
  unfold Table.dup2
  cases resolved : table.get descriptor1 with
  | none => exact ⟨-1, table, rfl, linked, fun failed => (failed rfl).elim⟩
  | some fd1 =>
    dsimp only
    obtain ⟨use, isOriginal, file⟩ := linked.get resolved
    by_cases outside : descriptor2 < 0 \/ descriptor2 > openMax
    · rw [if_pos outside]
      exact ⟨-1, table, rfl, linked, fun failed => (failed rfl).elim⟩
    rw [if_neg outside]
    by_cases same : descriptor1 = descriptor2
    · subst same
      rw [if_pos rfl]
      rcases Option.map_eq_some_iff.mp resolved with ⟨slot, exactly, _⟩
      obtain ⟨number, slotUse⟩ := getExact_eq_some exactly
      refine ⟨descriptor1, table, rfl, linked, fun _ => ⟨?_, rfl⟩⟩
      rw [number]
      exact slotUse
    rw [if_neg same]
    obtain ⟨mayClose, apart⟩ := allowed.resolve_left same fd1 resolved
      (not_lt.mp fun negative => outside (Or.inl negative))
      (not_lt.mp fun large => outside (Or.inr large))
    have number := Int.toNat_of_nonneg (not_lt.mp fun negative => outside (Or.inl negative))
    generalize descriptor2.toNat = fd2 at *
    subst number
    cases grown : table.grow (fd2 + 1) memory with
    | none => exact ⟨-1, table, rfl, linked, fun failed => (failed rfl).elim⟩
    | some larger =>
      dsimp only
      obtain ⟨largerLinked, fds, _, _, inside⟩ := linked.grow grown
      have mayCloseLarger : larger.MayClose fd2 := by
        unfold MayClose isAliased at mayClose ⊢
        rw [fds]
        exact mayClose
      rw [<- fds] at use isOriginal file apart ⊢
      by_cases inUse : (larger.fds fd2).inUse
      · rw [if_pos inUse]
        rcases largerLinked.close inUse mayCloseLarger answers with
          ⟨succeeded, closed, result, closedFacts⟩
        rw [result]
        cases succeeded with
        | false => exact ⟨-1, closed, rfl, closedFacts.linked, fun failed => (failed rfl).elim⟩
        | true =>
          -- the descriptor closed is not the one that is duplicated
          have differ : fd1 ≠ fd2 := by
            rintro rfl
            have zero := apart rfl
            unfold Table.close at result
            rw [getExact_natCast (largerLinked.slot_lt use) use] at result
            dsimp only at result
            unfold Table.closeAction at result
            rw [if_pos zero] at result
            cases result
          obtain ⟨sameUse, stillOriginal, sameFile⟩ :=
            closedFacts.originals fd1 differ isOriginal
          have closedInside := closedFacts.numFd ▸ inside
          obtain ⟨nextLinked, nextUse, nextFile⟩ := closedFacts.linked.duplicate closedInside
            (closedFacts.unlinked rfl) differ.symm (sameUse.trans use) stillOriginal
          exact ⟨fd2, _, rfl, nextLinked,
            fun _ => ⟨nextUse, nextFile.trans (sameFile.trans file.symm)⟩⟩
      · rw [if_neg inUse]
        have vacant := Bool.eq_false_iff.mpr inUse
        have differ : fd2 ≠ fd1 := fun equal => inUse (equal ▸ use)
        obtain ⟨nextLinked, nextUse, nextFile⟩ := largerLinked.duplicate inside
          (largerLinked.vacant fd2 vacant) differ use isOriginal
        exact ⟨fd2, _, rfl, nextLinked, fun _ => ⟨nextUse, nextFile.trans file.symm⟩⟩

/-! ## Runs -/

theorem linked_initial : initial.Linked := by
  have alone : ∀ slot, (initial.fds slot).orig = none /\
      (initial.fds slot).nextAlias = none := by
    intro slot
    unfold initial
    dsimp only
    split <;> exact ⟨rfl, rfl⟩
  have serial : ∀ slot, (initial.fds slot).inUse ->
      slot < 3 /\ (initial.fds slot).file.serial = slot := by
    intro slot use
    unfold initial at use ⊢
    dsimp only at use ⊢
    split at use
    · rename_i standard
      rw [if_pos standard]
      exact ⟨standard, rfl⟩
    · cases use
  refine ⟨?_, fun slot _ => alone slot, ?_, ?_, ?_, ?_⟩
  · intro slot beyond
    exact congrArg Fd.inUse (if_neg (not_lt.mpr beyond))
  · intro slot orig refers
    rw [(alone slot).1] at refers
    cases refers
  · intro first second useFirst useSecond _ _ same
    rw [(serial first useFirst).2, (serial second useSecond).2] at same
    exact same
  · intro orig _ _
    refine ⟨[], (alone orig).2, List.nodup_singleton _, fun slot => ?_⟩
    rw [(alone slot).1]
    exact iff_of_false List.not_mem_nil (fun refers => by cases refers)
  · intro slot use
    rw [(serial slot use).2]
    exact (serial slot use).1

theorem Linked.call (linked : table.Linked) (step : Call) (allowed : table.Allowed step) :
    ∃ result next, table.call step = some (result, next) /\ next.Linked := by
  cases step with
  | openFile outcome memory => exact ⟨_, _, rfl, linked.openFile outcome memory⟩
  | dup desc memory => exact ⟨_, _, rfl, linked.dup desc memory⟩
  | dupFd desc base memory memoryMore =>
    exact ⟨_, _, rfl, linked.dupFd desc base memory memoryMore⟩
  | dup2 descriptor1 descriptor2 memory answers =>
    rcases linked.dup2 descriptor1 descriptor2 memory answers allowed with
      ⟨result, next, returned, nextLinked, _⟩
    exact ⟨result, next, returned, nextLinked⟩
  | close desc answers =>
    cases exactly : table.getExact desc with
    | none =>
      refine ⟨-1, table, ?_, linked⟩
      show table.close desc answers = _
      unfold Table.close
      rw [exactly]
    | some fd =>
      obtain ⟨number, use⟩ := getExact_eq_some exactly
      rcases linked.close use (allowed fd exactly) answers with
        ⟨succeeded, after, returned, closed⟩
      rw [<- number] at returned
      exact ⟨_, after, returned, closed.linked⟩

theorem Linked.run (linked : table.Linked) (calls : List Call) (allowed : table.AllowedRun calls) :
    ∃ final, table.run calls = some final /\ final.Linked := by
  induction calls generalizing table with
  | nil => exact ⟨table, rfl, linked⟩
  | cons head calls ih =>
    rcases linked.call head allowed.1 with ⟨result, next, returned, nextLinked⟩
    rcases ih nextLinked (allowed.2 result next returned) with ⟨final, reached, finalLinked⟩
    refine ⟨final, ?_, finalLinked⟩
    rw [Table.run, returned]
    exact reached

/-- Over every sequence of allowed calls all of them return, the descriptors
that share a file have one original which leads to each of the others once, and
a successful `dup2()` makes its second descriptor refer to the file of its first. -/
theorem descriptors_grouped (calls : List Call) (allowed : initial.AllowedRun calls) :
    ∃ final, initial.run calls = some final /\ final.Grouped /\
      ∀ descriptor1 descriptor2 memory answers,
        final.Allowed (.dup2 descriptor1 descriptor2 memory answers) ->
        ∃ result next, final.dup2 descriptor1 descriptor2 memory answers = some (result, next) /\
          (result ≠ -1 -> (next.fds descriptor2.toNat).inUse /\
            (next.fds descriptor2.toNat).file = (final.fds descriptor1.toNat).file) := by
  rcases linked_initial.run calls allowed with ⟨final, reached, linked⟩
  refine ⟨final, reached, linked.grouped, fun descriptor1 descriptor2 memory answers permitted => ?_⟩
  rcases linked.dup2 descriptor1 descriptor2 memory answers permitted with
    ⟨result, next, returned, _, refers⟩
  exact ⟨result, next, returned, refers⟩

theorem AllowedRun.cons {step : Call} {calls : List Call} {result : Int} {next : Table}
    (allowed : table.Allowed step) (returned : table.call step = some (result, next))
    (rest : next.AllowedRun calls) : table.AllowedRun (step :: calls) := by
  refine ⟨allowed, fun result' next' returned' => ?_⟩
  rw [returned] at returned'
  cases returned'
  exact rest

/-- A file is opened, duplicated, and put in the place of standard output. -/
theorem descriptors_grouped_after_redirection :
    ∃ calls, calls = [.openFile (.opened false false) true, .dup 3 true,
        .dup2 4 1 true ⟨true, true⟩] /\ initial.AllowedRun calls /\
      ∃ final, initial.run calls = some final /\ final.Grouped /\
        ∀ descriptor1 descriptor2 memory answers,
          final.Allowed (.dup2 descriptor1 descriptor2 memory answers) ->
          ∃ result next,
            final.dup2 descriptor1 descriptor2 memory answers = some (result, next) /\
            (result ≠ -1 -> (next.fds descriptor2.toNat).inUse /\
              (next.fds descriptor2.toNat).file = (final.fds descriptor1.toNat).file) := by
  have allowed : initial.AllowedRun [.openFile (.opened false false) true, .dup 3 true,
      .dup2 4 1 true ⟨true, true⟩] := by
    refine AllowedRun.cons trivial rfl (AllowedRun.cons trivial rfl ⟨Or.inr ?_, fun _ _ _ => trivial⟩)
    intro fd1 resolved _ _
    cases resolved
    exact ⟨Or.inr (Or.inl ⟨rfl, rfl⟩), fun same => absurd same (by decide)⟩
  exact ⟨_, rfl, allowed, descriptors_grouped _ allowed⟩

/-- Duplicating an alias onto its own original loses the descriptor although the
call succeeds, and an alias of a directory stays in the list when it is closed. -/
theorem dup2_onto_own_original_fails : (∃ table next,
      initial.run [.openFile (.opened false false) true, .dup 3 true] = some table /\
      table.dup2 4 3 true ⟨true, true⟩ = some (3, next) /\
      (next.fds 3).inUse = false /\ (next.fds 3).orig = some 3 /\
      (next.fds 3).nextAlias = some 3) /\
    ∃ table,
      initial.run [.openFile (.opened true false) true, .dup 3 true, .close 4 ⟨true, true⟩] =
        some table /\
      (table.fds 3).nextAlias = some 4 /\ (table.fds 4).inUse = false := by
  refine ⟨⟨_, _, rfl, rfl, ?_⟩, _, rfl, ?_⟩
  all_goals decide +kernel

end Table

end Clib4.Unistd
