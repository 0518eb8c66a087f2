import Clib4.Unistd.DescriptorRun

namespace Clib4.Unistd

/-!
# The flag `FD_CLOEXEC`

`fcntl()` resolves a descriptor to the original of its group before it looks at
`F_GETFD` or `F_SETFD`, so a group has one flag, that of its original.  The
copies of the flag that `__duplicate_fd` makes in the aliases are never read.
-/

namespace Table

def fdCloexec : Int := 1

/-- `FLAG_IS_SET(flags, FD_CLOEXEC)`. -/
def cloexecSet (flags : Int) : Bool := decide (flags % 2 = 1)

def getFd (table : Table) (desc : Int) : Int :=
  match table.get desc with
  | none => -1
  | some fd => if (table.fds fd).cloexec then fdCloexec else 0

def setFd (table : Table) (desc flags : Int) : Int × Table :=
  match table.get desc with
  | none => (-1, table)
  | some fd => (0, table.set fd { table.fds fd with cloexec := cloexecSet flags })

variable {table : Table}

/-! ## One flag for a group -/

variable {desc : Int} {fd : Nat}

theorem getFd_of_get (found : table.get desc = some fd) :
    table.getFd desc = if (table.fds fd).cloexec then fdCloexec else 0 := by
  unfold getFd
  rw [found]

/-- The table behind `F_SETFD`. -/
def withCloexec (table : Table) (fd : Nat) (flag : Bool) : Table :=
  table.set fd { table.fds fd with cloexec := flag }

theorem withCloexec_fds (fd : Nat) (flag : Bool) (slot : Nat) :
    (table.withCloexec fd flag).fds slot = { table.fds slot with
      cloexec := if slot = fd then flag else (table.fds slot).cloexec } := by
  unfold withCloexec
  rcases eq_or_ne slot fd with rfl | other
  · rw [set_fds_self, if_pos rfl]
  · rw [set_fds_of_ne other, if_neg other]

theorem withCloexec_get (fd : Nat) (flag : Bool) (desc : Int) :
    (table.withCloexec fd flag).get desc = table.get desc := by
  unfold Table.get getExact
  simp only [withCloexec_fds]
  rfl

theorem setFd_eq (found : table.get desc = some fd)
    (flags : Int) : table.setFd desc flags = (0, table.withCloexec fd (cloexecSet flags)) := by
  unfold setFd
  rw [found]
  rfl

/-- `F_SETFD` keeps the links in order. -/
theorem Linked.withCloexec (linked : table.Linked) (fd : Nat) (flag : Bool) :
    (table.withCloexec fd flag).Linked where
  outside slot beyond := by
    rw [withCloexec_fds]
    exact linked.outside slot beyond
  vacant slot vacant := by
    rw [withCloexec_fds] at vacant ⊢
    exact linked.vacant slot vacant
  aliased slot orig refers := by
    rw [withCloexec_fds] at refers ⊢
    rw [withCloexec_fds]
    exact linked.aliased slot orig refers
  unique first second useFirst useSecond firstOriginal secondOriginal same := by
    rw [withCloexec_fds] at useFirst useSecond firstOriginal secondOriginal
    rw [withCloexec_fds, withCloexec_fds] at same
    exact linked.unique first second useFirst useSecond firstOriginal secondOriginal same
  lists orig use isOriginal := by
    rw [withCloexec_fds] at use isOriginal
    rcases linked.lists orig use isOriginal with ⟨aliases, has⟩
    refine ⟨aliases, has.congr (fun slot _ => ?_) fun slot => ?_⟩
    · unfold links
      rw [withCloexec_fds]
    · rw [withCloexec_fds]
  fresh slot use := by
    rw [withCloexec_fds] at use ⊢
    exact linked.fresh slot use

theorem withCloexec_getFd (flag : Bool) (desc : Int) :
    (table.withCloexec fd flag).getFd desc =
      if table.get desc = some fd then (if flag then fdCloexec else 0)
      else table.getFd desc := by
  unfold getFd
  rw [withCloexec_get]
  cases found : table.get desc with
  | none => rfl
  | some slot =>
    dsimp only
    rw [withCloexec_fds]
    rcases eq_or_ne slot fd with rfl | other
    · rw [if_pos rfl, if_pos rfl]
    · rw [if_neg other, if_neg (fun same => other (Option.some.inj same))]

/-- What `F_SETFD` is for: the flag of this descriptor, and of no other. -/
def SetsOnly (table : Table) (desc flags : Int) : Prop :=
  (table.setFd desc flags).2.getFd desc = (if cloexecSet flags then fdCloexec else 0) /\
    ∀ other, other ≠ desc ->
      (table.setFd desc flags).2.getFd other = table.getFd other

theorem setsOnly_iff (found : table.get desc = some fd) (flags : Int) :
    table.SetsOnly desc flags <-> cloexecSet flags = (table.fds fd).cloexec \/
        ∀ other, other ≠ desc -> table.get other ≠ some fd := by
  have flagged : ∀ one two : Bool,
      (if one then fdCloexec else 0) = (if two then fdCloexec else 0) <-> one = two := by decide
  unfold SetsOnly
  rw [setFd_eq found]
  rw [withCloexec_getFd, if_pos found, and_iff_right rfl]
  constructor
  · intro keeps
    by_contra neither
    rw [not_or] at neither
    apply neither.2
    intro other differ resolved
    have same := keeps other differ
    rw [withCloexec_getFd, if_pos resolved, getFd_of_get resolved, flagged] at same
    exact neither.1 same
  · rintro (same | alone) other differ
    · rw [withCloexec_getFd]
      by_cases resolved : table.get other = some fd
      · rw [if_pos resolved, getFd_of_get resolved, same]
      · rw [if_neg resolved]
    · rw [withCloexec_getFd, if_neg (alone other differ)]

/-! ## Duplicates -/

theorem getFd_vacant {slot : Nat} (vacant : (table.fds slot).inUse = false) :
    table.getFd slot = -1 := by
  have unresolved : table.get slot = none := by
    unfold Table.get getExact
    rw [Int.toNat_natCast, vacant]
    simp
  unfold getFd
  rw [unresolved]

theorem getFd_duplicateFd {duplicate orig : Nat} (differ : duplicate ≠ orig)
    (inside : duplicate < table.numFd) (use : (table.fds orig).inUse)
    (isOriginal : (table.fds orig).orig = none) :
    (table.duplicateFd duplicate orig).getFd duplicate =
      if (table.fds orig).cloexec then fdCloexec else 0 := by
  have entry := duplicateFd_duplicate differ isOriginal
  have resolved : (table.duplicateFd duplicate orig).get duplicate = some orig := by
    have within : duplicate < (table.duplicateFd duplicate orig).numFd := inside
    have used : ((table.duplicateFd duplicate orig).fds duplicate).inUse := by
      rw [entry]
      exact use
    rw [Table.get, getExact_natCast within used, Option.map_some, entry]
    rfl
  rw [getFd_of_get resolved, duplicateFd_original differ isOriginal]

theorem Linked.duplicates_getFd (linked : table.Linked)
    (found : table.get desc = some fd) {outcome : Int × Table}
    (duplicates : Duplicates table fd outcome) (succeeded : outcome.1 ≠ -1) :
    outcome.2.getFd outcome.1 = table.getFd desc := by
  obtain ⟨use, isOriginal, _⟩ := linked.get found
  cases duplicates with
  | failed => exact absurd rfl succeeded
  | @made next slot nextLinked fds inside vacant =>
    rw [<- fds] at use isOriginal
    have differ : slot ≠ fd := by
      rintro rfl
      rw [use] at vacant
      cases vacant
    rw [getFd_duplicateFd differ inside use isOriginal, fds, getFd_of_get found]

/-! ## `dup2()` -/

variable {answers : CloseAnswers} {after : Table}

theorem Linked.closeAction_original (linked : table.Linked) {fd slot : Nat}
    (differ : slot ≠ fd) (isOriginal : (table.fds slot).orig = none) {succeeded : Bool}
    (closed : table.closeAction fd answers = some (succeeded, after)) :
    after.numFd = table.numFd /\
      ∃ next, after.fds slot = { table.fds slot with nextAlias := next } := by
  have released : (table.set fd .zero).numFd = table.numFd /\
      ∃ next, (table.set fd .zero).fds slot = { table.fds slot with nextAlias := next } :=
    ⟨rfl, (table.fds slot).nextAlias, set_fds_of_ne differ _⟩
  have unchanged : table.numFd = table.numFd /\
      ∃ next, table.fds slot = { table.fds slot with nextAlias := next } :=
    ⟨rfl, (table.fds slot).nextAlias, rfl⟩
  unfold Table.closeAction at closed
  dsimp only at closed
  split_ifs at closed with zero path aliased
  · cases closed
    exact unchanged
  · cases closed
    exact released
  · rcases linked.unlinked aliased with ⟨unlinked, removed, _, numFd, elsewhere⟩
    rw [removed] at closed
    cases closed
    exact ⟨numFd, elsewhere slot differ isOriginal⟩
  · cases closed
    exact released
  · cases closed
    exact unchanged
  · cases closed
    exact released

theorem closeAction_vacates (aliased : table.isAliased fd)
    (closed : table.closeAction fd answers = some (true, after)) : after.fds fd = .zero := by
  unfold Table.closeAction at closed
  dsimp only at closed
  split_ifs at closed
  · cases closed
  · cases closed
    exact set_fds_self _ _
  · rcases Option.bind_eq_some_iff.mp closed with ⟨unlinked, _, same⟩
    cases same
    exact set_fds_self _ _

theorem duplicateFd_self (vacant : table.fds fd = .zero) :
    ((table.duplicateFd fd fd).fds fd).inUse = false := by
  unfold duplicateFd setNextAlias setOriginal
  simp [vacant, Fd.zero]

theorem close_eq_some (inside : fd < table.numFd) (use : (table.fds fd).inUse)
    {result : Int} (closed : table.close fd answers = some (result, after))
    (succeeded : ¬ result < 0) : table.closeAction fd answers = some (true, after) := by
  unfold Table.close at closed
  rw [getExact_natCast inside use] at closed
  rcases Option.bind_eq_some_iff.mp closed with ⟨⟨flag, next⟩, action, same⟩
  cases flag with
  | false =>
    cases same
    exact absurd (by decide) succeeded
  | true =>
    cases same
    exact action

theorem isAliased_of_get (linked : table.Linked)
    (found : table.get desc = some fd) (differ : desc ≠ fd) :
    table.isAliased fd := by
  rcases Option.map_eq_some_iff.mp found with ⟨slot, exactly, resolved⟩
  obtain ⟨number, _⟩ := getExact_eq_some exactly
  cases refers : (table.fds slot).orig with
  | none =>
    rw [refers] at resolved
    exact absurd (number.trans (congrArg Nat.cast resolved)) differ
  | some orig =>
    rw [refers] at resolved
    cases resolved
    by_contra alone
    exact linked.no_alias_of_unlinked (isAliased_eq_false.mp (Bool.eq_false_iff.mpr alone)) slot
      refers

/-- The flag of a successful `dup2()`; one onto the original of the first
descriptor leaves no descriptor at all. -/
theorem Linked.dup2_getFd (linked : table.Linked) {descriptor1 descriptor2 : Int} {fd1 : Nat}
    (found : table.get descriptor1 = some fd1) {memory : Bool} {result : Int} {next : Table}
    (returned : table.dup2 descriptor1 descriptor2 memory answers = some (result, next))
    (succeeded : result ≠ -1) :
    next.getFd result =
      if descriptor1 ≠ descriptor2 /\ descriptor2 = fd1 then -1 else table.getFd descriptor1 := by
  obtain ⟨use, isOriginal, _⟩ := linked.get found
  unfold Table.dup2 at returned
  rw [found] at returned
  dsimp only at returned
  by_cases outside : descriptor2 < 0 \/ descriptor2 > openMax
  · rw [if_pos outside] at returned
    cases returned
    exact absurd rfl succeeded
  rw [if_neg outside] at returned
  by_cases same : descriptor1 = descriptor2
  · rw [if_pos same] at returned
    cases returned
    rw [if_neg fun both => both.1 same, same]
  rw [if_neg same] at returned
  have number := Int.toNat_of_nonneg (not_lt.mp fun negative => outside (Or.inl negative))
  generalize descriptor2.toNat = fd2 at *
  subst number
  cases grown : table.grow (fd2 + 1) memory with
  | none =>
    rw [grown] at returned
    cases returned
    exact absurd rfl succeeded
  | some larger =>
    rw [grown] at returned
    dsimp only at returned
    obtain ⟨largerLinked, fds, _, _, inside⟩ := linked.grow grown
    have useLarger : (larger.fds fd1).inUse := by rw [fds]; exact use
    have originalLarger : (larger.fds fd1).orig = none := by rw [fds]; exact isOriginal
    by_cases inUse : (larger.fds fd2).inUse
    · rw [if_pos inUse] at returned
      rcases Option.bind_eq_some_iff.mp returned with ⟨⟨code, closed⟩, call, rest⟩
      by_cases failed : code < 0
      · rw [if_pos failed] at rest
        cases rest
        exact absurd rfl succeeded
      rw [if_neg failed] at rest
      cases rest
      have action := close_eq_some inside inUse call failed
      by_cases own : fd2 = fd1
      · -- the entry that is duplicated has just been closed
        subst own
        have aliased : larger.isAliased fd2 := by
          have before := isAliased_of_get linked found same
          unfold isAliased at before ⊢
          rw [fds]
          exact before
        have vacant := duplicateFd_self (closeAction_vacates aliased action)
        rw [if_pos ⟨same, rfl⟩, getFd_vacant vacant]
      · rw [if_neg fun both => own (Int.ofNat_inj.mp both.2)]
        obtain ⟨size, link, entry⟩ :=
          largerLinked.closeAction_original (Ne.symm own) originalLarger action
        rw [getFd_duplicateFd own (size ▸ inside) (by rw [entry]; exact useLarger)
          (by rw [entry]; exact originalLarger), entry, fds, getFd_of_get found]
    · rw [if_neg inUse] at returned
      cases returned
      have own : fd2 ≠ fd1 := fun equal => inUse (equal ▸ useLarger)
      rw [if_neg fun both => own (Int.ofNat_inj.mp both.2),
        getFd_duplicateFd own inside useLarger originalLarger, fds, getFd_of_get found]

/-- For every descriptor of every group: `F_SETFD` changes what `F_GETFD` returns
for this descriptor only exactly when it changes nothing or the descriptor is
alone in its group, and the descriptor that `dup()`, `F_DUPFD` or `dup2()`
returns has `FD_CLOEXEC` clear exactly when the source has, and is not itself
the original of the source. -/
theorem close_on_exec_iff (table : Table) (linked : table.Linked) (desc : Int) (fd : Nat)
    (found : table.get desc = some fd) :
    (∀ flags, table.SetsOnly desc flags <-> cloexecSet flags = (table.fds fd).cloexec \/
        ∀ other, other ≠ desc -> table.get other ≠ some fd) /\
    (∀ memory result next, table.dup desc memory = (result, next) -> result ≠ -1 ->
      (next.getFd result = 0 <-> table.getFd desc = 0)) /\
    (∀ base memory memoryMore result next,
      table.dupFd desc base memory memoryMore = (result, next) -> result ≠ -1 ->
      (next.getFd result = 0 <-> table.getFd desc = 0)) /\
    (∀ descriptor2 memory answers result next,
      table.dup2 desc descriptor2 memory answers = some (result, next) -> result ≠ -1 ->
      (next.getFd result = 0 <-> table.getFd desc = 0 /\
        ¬ (desc ≠ descriptor2 /\ descriptor2 = fd))) := by
  refine ⟨fun flags => setsOnly_iff found flags, ?_, ?_, ?_⟩
  · intro memory result next returned succeeded
    have duplicates := linked.dup_cases found memory
    rw [returned] at duplicates
    rw [linked.duplicates_getFd found duplicates succeeded]
  · intro base memory memoryMore result next returned succeeded
    have duplicates := linked.dupFd_cases found base memory memoryMore
    rw [returned] at duplicates
    rw [linked.duplicates_getFd found duplicates succeeded]
  · intro descriptor2 memory answers result next returned succeeded
    rw [linked.dup2_getFd found returned succeeded]
    by_cases own : desc ≠ descriptor2 /\ descriptor2 = fd
    · rw [if_pos own]
      exact iff_of_false (by decide) fun both => both.2 own
    · rw [if_neg own, and_iff_left own]

theorem close_on_exec_of_standard_output :
    initial.Linked /\ initial.get 1 = some 1 /\ (initial.dup 1 true).1 = 3 /\
      (initial.dup 1 true).2.getFd 3 = 0 := by
  have both := (close_on_exec_iff initial linked_initial 1 1 rfl).2.1 true 3 _ rfl (by decide)
  exact ⟨linked_initial, rfl, rfl, both.mpr (by decide)⟩

/-- Setting the flag of a duplicate of standard output sets that of standard
output, and a duplicate of a descriptor with the flag set has it set. -/
theorem close_on_exec_shared : (initial.dup 1 true).1 = 3 /\ (initial.dup 1 true).2.getFd 1 = 0 /\
      ((initial.dup 1 true).2.setFd 3 fdCloexec).2.getFd 1 = fdCloexec /\
      ((initial.setFd 1 fdCloexec).2.dup 1 true).1 = 3 /\
      ((initial.setFd 1 fdCloexec).2.dup 1 true).2.getFd 3 = fdCloexec := by
  decide +kernel

/-! ## `F_SETFD` in a run -/

/-- The tables that allowed calls and `F_SETFD` lead to. -/
inductive Reachable : Table -> Prop
  | initial : Reachable initial
  | call {table next : Table} {step : Call} {result : Int} (before : Reachable table)
      (allowed : table.Allowed step) (returned : table.call step = some (result, next)) :
      Reachable next
  | setFd {table : Table} (before : Reachable table) (desc flags : Int) :
      Reachable (table.setFd desc flags).2

theorem Reachable.linked (reachable : Reachable table) : table.Linked := by
  induction reachable with
  | initial => exact linked_initial
  | @call table next step result _ allowed returned linked =>
    rcases linked.call step allowed with ⟨_, _, same, nextLinked⟩
    cases same.symm.trans returned
    exact nextLinked
  | @setFd table _ desc flags linked =>
    cases found : table.get desc with
    | none =>
      unfold Table.setFd
      rw [found]
      exact linked
    | some fd =>
      rw [setFd_eq found]
      exact linked.withCloexec fd _

/-- Flags that are set between the calls neither disturb the groups nor keep a
call from returning. -/
theorem flagged_descriptors_grouped (reachable : Reachable table) :
    table.Grouped /\ ∀ step, table.Allowed step -> (table.call step).isSome := by
  refine ⟨reachable.linked.grouped, fun step allowed => ?_⟩
  rcases reachable.linked.call step allowed with ⟨_, _, returned, _⟩
  exact Option.isSome_of_eq_some returned

/-- A file is opened, its descriptor 3 is duplicated as 4, and the flag is set on the alias:
the original has it, too, and both can be closed. -/
theorem flagged_descriptors_grouped_of_alias :
    let opened := (initial.openFile (.opened false false) true).2
    let table := ((opened.dup 3 true).2.setFd 4 fdCloexec).2
    (opened.dup 3 true).1 = 4 /\ table.getFd 3 = fdCloexec /\ table.Grouped /\
      (table.call (.close 3 ⟨true, true⟩)).isSome /\ (table.call (.close 4 ⟨true, true⟩)).isSome := by
  intro opened table
  have first : Reachable opened :=
    .call .initial (show initial.Allowed (.openFile (.opened false false) true) from trivial) rfl
  have second : Reachable (opened.dup 3 true).2 :=
    .call first (show opened.Allowed (.dup 3 true) from trivial) rfl
  obtain ⟨grouped, returns⟩ := flagged_descriptors_grouped (.setFd second 4 fdCloexec)
  refine ⟨by decide +kernel, by decide +kernel, grouped, returns _ ?_, returns _ ?_⟩
  · intro fd found
    cases (show table.getExact 3 = some 3 by decide +kernel).symm.trans found
    exact Or.inr (Or.inl (by decide +kernel))
  · intro fd found
    cases (show table.getExact 4 = some 4 by decide +kernel).symm.trans found
    exact Or.inr (Or.inl (by decide +kernel))

end Table

end Clib4.Unistd
