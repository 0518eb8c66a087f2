import Mathlib.Data.List.Nodup
import Mathlib.Data.List.Range
import Mathlib.Data.Fintype.Card
import Mathlib.Tactic.Ring
import Clib4.Foundation.Chain
import Clib4.Unistd.DescriptorTable

namespace Clib4.Unistd

open Foundation List

/-!
# Descriptors that share a file

The descriptors made from one `open()` form a group: one of them is the
original, the others are its aliases, and the original leads to a list of them.
-/

namespace Table

def links (table : Table) : Nat -> Option Nat := fun slot => (table.fds slot).nextAlias

/-- The aliases of an original, in the order of the list. -/
structure HasAliases (table : Table) (orig : Nat) (aliases : List Nat) : Prop where
  chain : IsChain table.links (table.links orig) aliases
  distinct : (orig :: aliases).Nodup
  members : ∀ slot, slot ∈ aliases <-> (table.fds slot).orig = some orig

/-- The links of a table are in order. -/
structure Linked (table : Table) : Prop where
  outside : ∀ slot, table.numFd <= slot -> (table.fds slot).inUse = false
  vacant : ∀ slot, (table.fds slot).inUse = false ->
    (table.fds slot).orig = none /\ (table.fds slot).nextAlias = none
  aliased : ∀ slot orig, (table.fds slot).orig = some orig ->
    (table.fds orig).inUse /\ (table.fds orig).orig = none /\
      (table.fds slot).file = (table.fds orig).file
  unique : ∀ first second, (table.fds first).inUse -> (table.fds second).inUse ->
    (table.fds first).orig = none -> (table.fds second).orig = none ->
    (table.fds first).file.serial = (table.fds second).file.serial -> first = second
  lists : ∀ orig, (table.fds orig).inUse ->
    (table.fds orig).orig = none -> ∃ aliases, table.HasAliases orig aliases
  fresh : ∀ slot, (table.fds slot).inUse -> (table.fds slot).file.serial < table.opened

def Unlinked (table : Table) (slot : Nat) : Prop :=
  (table.fds slot).orig = none /\ (table.fds slot).nextAlias = none

variable {table : Table}

@[simp]
theorem set_fds_self (slot : Nat) (fd : Fd) : (table.set slot fd).fds slot = fd :=
  Function.update_self ..

theorem set_fds_of_ne {slot other : Nat} (differ : other ≠ slot) (fd : Fd) :
    (table.set slot fd).fds other = table.fds other :=
  Function.update_of_ne differ ..

@[simp]
theorem set_opened (slot : Nat) (fd : Fd) : (table.set slot fd).opened = table.opened := rfl

variable {orig : Nat}

/-- A list of aliases depends on the links of its members and on who refers to
the original. -/
theorem HasAliases.congr {other : Table} {aliases : List Nat}
    (has : table.HasAliases orig aliases)
    (links : ∀ slot ∈ orig :: aliases, other.links slot = table.links slot)
    (members : ∀ slot, (other.fds slot).orig = some orig <->
      (table.fds slot).orig = some orig) :
    other.HasAliases orig aliases where
  chain := by
    rw [links orig mem_cons_self]
    exact has.chain.congr fun slot mem => links slot (mem_cons_of_mem _ mem)
  distinct := has.distinct
  members slot := (has.members slot).trans (members slot).symm

namespace Linked

theorem inUse_of_alias (linked : table.Linked) {slot orig : Nat}
    (alias_ : (table.fds slot).orig = some orig) : (table.fds slot).inUse := by
  rcases use : (table.fds slot).inUse with _ | _
  · rw [(linked.vacant slot use).1] at alias_
    cases alias_
  · rfl

theorem slot_lt (linked : table.Linked) {slot : Nat} (use : (table.fds slot).inUse) :
    slot < table.numFd := by
  rcases Nat.lt_or_ge slot table.numFd with inside | beyond
  · exact inside
  · rw [linked.outside slot beyond] at use
    cases use

theorem no_alias_of_unlinked (linked : table.Linked) {slot : Nat} (unlinked : table.Unlinked slot)
    (other : Nat) : (table.fds other).orig ≠ some slot := by
  intro refers
  have use := (linked.aliased other slot refers).1
  rcases linked.lists slot use unlinked.1 with ⟨aliases, has⟩
  have empty : aliases = [] := by
    apply IsChain.eq_nil
    rw [<- unlinked.2]
    exact has.chain
  have mem := (has.members other).mpr refers
  rw [empty] at mem
  cases mem

end Linked

/-- What a change to the entries of one group amounts to: the entries it
touches are one group again, led by `head`, or vacant. -/
structure Regrouped (before after : Table) (touched : Nat -> Prop) (head : Nat) : Prop where
  numFd : after.numFd = before.numFd
  opened : before.opened <= after.opened
  frame : ∀ slot, ¬ touched slot -> after.fds slot = before.fds slot
  closed : ∀ slot orig, (before.fds slot).orig = some orig ->
    (touched slot <-> touched orig)
  inside : ∀ slot, touched slot -> slot < before.numFd
  others : ∀ slot, touched slot -> slot ≠ head ->
    (after.fds slot).inUse = false /\ after.Unlinked slot \/
      (after.fds slot).inUse /\ (after.fds slot).orig = some head /\
        (after.fds head).inUse /\ (after.fds slot).file = (after.fds head).file
  headTouched : touched head
  headOriginal : (after.fds head).orig = none
  headVacant : (after.fds head).inUse = false -> (after.fds head).nextAlias = none
  headList : ∃ aliases, IsChain after.links (after.links head) aliases /\
    (head :: aliases).Nodup /\
      ∀ slot, slot ∈ aliases <-> touched slot /\ (after.fds slot).orig = some head
  headSerial : (after.fds head).inUse -> (after.fds head).file.serial < after.opened /\
      ∀ slot, ¬ touched slot -> (before.fds slot).inUse ->
        (before.fds slot).orig = none ->
        (before.fds slot).file.serial ≠ (after.fds head).file.serial

namespace Regrouped

variable {after : Table} {touched : Nat -> Prop} {head : Nat}

section

variable (change : Regrouped table after touched head)
include change

theorem eq_head {slot : Nat} (mem : touched slot) (use : (after.fds slot).inUse)
    (orig : (after.fds slot).orig = none) : slot = head := by
  by_contra differ
  rcases change.others slot mem differ with ⟨vacant, _⟩ | ⟨_, refers, _⟩
  · rw [use] at vacant
    cases vacant
  · rw [orig] at refers
    cases refers

theorem touched_of_refers {slot : Nat} (refers : (after.fds slot).orig = some head) :
    touched slot := by
  by_contra apart
  rw [change.frame slot apart] at refers
  exact apart ((change.closed slot head refers).mpr change.headTouched)

theorem unique (linked : table.Linked) {first second : Nat}
    (useFirst : (after.fds first).inUse) (useSecond : (after.fds second).inUse)
    (firstOriginal : (after.fds first).orig = none)
    (secondOriginal : (after.fds second).orig = none)
    (same : (after.fds first).file.serial = (after.fds second).file.serial) : first = second := by
  by_cases firstTouched : touched first
  · have firstHead := change.eq_head firstTouched useFirst firstOriginal
    subst firstHead
    by_cases secondTouched : touched second
    · exact (change.eq_head secondTouched useSecond secondOriginal).symm
    · rw [change.frame second secondTouched] at useSecond secondOriginal same
      exact ((change.headSerial useFirst).2 second secondTouched useSecond secondOriginal
        same.symm).elim
  · rw [change.frame first firstTouched] at useFirst firstOriginal same
    by_cases secondTouched : touched second
    · have secondHead := change.eq_head secondTouched useSecond secondOriginal
      subst secondHead
      exact ((change.headSerial useSecond).2 first firstTouched useFirst firstOriginal same).elim
    · rw [change.frame second secondTouched] at useSecond secondOriginal same
      exact linked.unique first second useFirst useSecond firstOriginal secondOriginal same

theorem lists (linked : table.Linked) {orig : Nat} (use : (after.fds orig).inUse)
    (isOriginal : (after.fds orig).orig = none) :
    ∃ aliases, after.HasAliases orig aliases := by
  by_cases mem : touched orig
  · have isHead := change.eq_head mem use isOriginal
    subst isHead
    rcases change.headList with ⟨aliases, chain, distinct, members⟩
    refine ⟨aliases, chain, distinct, fun slot => (members slot).trans ?_⟩
    exact ⟨fun both => both.2, fun refers => ⟨change.touched_of_refers refers, refers⟩⟩
  · rw [change.frame orig mem] at use isOriginal
    rcases linked.lists orig use isOriginal with ⟨aliases, has⟩
    have apart : ∀ slot ∈ aliases, ¬ touched slot := fun slot inList =>
      (not_congr (change.closed slot orig ((has.members slot).mp inList))).mpr mem
    refine ⟨aliases, has.congr ?_ ?_⟩
    · intro slot inGroup
      apply congrArg Fd.nextAlias
      apply change.frame
      rcases mem_cons.mp inGroup with rfl | inList
      · exact mem
      · exact apart slot inList
    · intro slot
      by_cases slotTouched : touched slot
      · have differs : orig ≠ head := fun same => mem (same ▸ change.headTouched)
        have before : (table.fds slot).orig ≠ some orig := fun refers =>
          mem ((change.closed slot orig refers).mp slotTouched)
        refine ⟨fun refers => ?_, fun refers => (before refers).elim⟩
        rcases eq_or_ne slot head with rfl | other
        · rw [change.headOriginal] at refers
          cases refers
        · rcases change.others slot slotTouched other with ⟨_, unlinked⟩ | ⟨_, toHead, _⟩
          · rw [unlinked.1] at refers
            cases refers
          · rw [toHead] at refers
            exact (differs (Option.some.inj refers).symm).elim
      · rw [change.frame slot slotTouched]

theorem linked (linked : table.Linked) : after.Linked where
  outside slot beyond := by
    rw [change.numFd] at beyond
    have apart : ¬ touched slot := fun mem =>
      absurd (change.inside slot mem) (not_lt.mpr beyond)
    rw [change.frame slot apart]
    exact linked.outside slot beyond
  vacant slot vacant := by
    by_cases mem : touched slot
    · rcases eq_or_ne slot head with rfl | other
      · exact ⟨change.headOriginal, change.headVacant vacant⟩
      · rcases change.others slot mem other with ⟨_, unlinked⟩ | ⟨use, _⟩
        · exact unlinked
        · rw [use] at vacant
          cases vacant
    · rw [change.frame slot mem] at vacant ⊢
      exact linked.vacant slot vacant
  aliased slot orig refers := by
    by_cases mem : touched slot
    · rcases eq_or_ne slot head with rfl | other
      · rw [change.headOriginal] at refers
        cases refers
      · rcases change.others slot mem other with ⟨_, unlinked⟩ | ⟨_, toHead, use, file⟩
        · rw [unlinked.1] at refers
          cases refers
        · rw [toHead] at refers
          cases refers
          exact ⟨use, change.headOriginal, file⟩
    · rw [change.frame slot mem] at refers ⊢
      rw [change.frame orig ((not_congr (change.closed slot orig refers)).mp mem)]
      exact linked.aliased slot orig refers
  unique _ _ useFirst useSecond firstOriginal secondOriginal same :=
    change.unique linked useFirst useSecond firstOriginal secondOriginal same
  lists _ use isOriginal := change.lists linked use isOriginal
  fresh slot use := by
    by_cases mem : touched slot
    · rcases eq_or_ne slot head with rfl | other
      · exact (change.headSerial use).1
      · rcases change.others slot mem other with ⟨vacant, _⟩ | ⟨_, _, headUse, file⟩
        · rw [use] at vacant
          cases vacant
        · rw [file]
          exact (change.headSerial headUse).1
    · rw [change.frame slot mem] at use ⊢
      exact (linked.fresh slot use).trans_le change.opened

end

end Regrouped

/-! ## The changes -/

variable {slot : Nat}

/-- An entry without links may be replaced by a vacant one, or by the first one
of a group of its own. -/
theorem Linked.set_unlinked (linked : table.Linked) (inside : slot < table.numFd)
    (unlinked : table.Unlinked slot) (fd : Fd) (orig : fd.orig = none)
    (nextAlias : fd.nextAlias = none) (opened : Nat) (more : table.opened <= opened)
    (fresh : fd.inUse -> table.opened <= fd.file.serial /\ fd.file.serial < opened) :
    Regrouped table { table.set slot fd with opened := opened } (fun other => other = slot) slot := by
  have alone := linked.no_alias_of_unlinked unlinked
  have here : (table.set slot fd).fds slot = fd := set_fds_self slot fd
  refine ⟨rfl, more, fun other apart => set_fds_of_ne apart fd, ?_, ?_, ?_, rfl, ?_, ?_, ?_, ?_⟩
  · intro other refers alias_
    constructor
    · rintro rfl
      rw [unlinked.1] at alias_
      cases alias_
    · rintro rfl
      exact (alone other alias_).elim
  · rintro other rfl
    exact inside
  · intro other same differ
    exact (differ same).elim
  · exact (congrArg Fd.orig here).trans orig
  · intro _
    exact (congrArg Fd.nextAlias here).trans nextAlias
  · refine ⟨[], (congrArg Fd.nextAlias here).trans nextAlias, nodup_singleton _, ?_⟩
    intro other
    refine ⟨fun mem => (not_mem_nil mem).elim, ?_⟩
    rintro ⟨rfl, refers⟩
    rw [show _ = fd.orig from congrArg Fd.orig here, orig] at refers
    cases refers
  · intro use
    rw [show _ = fd.inUse from congrArg Fd.inUse here] at use
    rw [show _ = fd.file from congrArg Fd.file here]
    refine ⟨(fresh use).2, fun other _ otherUse _ same => ?_⟩
    have old := linked.fresh other otherUse
    have new := (fresh use).1
    omega

def InGroup (table : Table) (orig slot : Nat) : Prop :=
  slot = orig \/ (table.fds slot).orig = some orig

theorem Linked.closed_inGroup (linked : table.Linked)
    (isOriginal : (table.fds orig).orig = none) {refersTo : Nat}
    (refers : (table.fds slot).orig = some refersTo) :
    table.InGroup orig slot <-> table.InGroup orig refersTo := by
  constructor
  · rintro (rfl | toOriginal)
    · rw [isOriginal] at refers
      cases refers
    · rw [toOriginal] at refers
      exact Or.inl (Option.some.inj refers).symm
  · rintro (rfl | toOriginal)
    · exact Or.inr refers
    · rw [(linked.aliased slot refersTo refers).2.1] at toOriginal
      cases toOriginal

theorem Linked.serial_ne (linked : table.Linked) (use : (table.fds orig).inUse)
    (isOriginal : (table.fds orig).orig = none) (apart : ¬ table.InGroup orig slot)
    (slotUse : (table.fds slot).inUse) (slotOriginal : (table.fds slot).orig = none) :
    (table.fds slot).file.serial ≠ (table.fds orig).file.serial := fun same =>
  apart (Or.inl (linked.unique slot orig slotUse use slotOriginal isOriginal same))

theorem Linked.slot_lt_of_inGroup (linked : table.Linked)
    (use : (table.fds orig).inUse) (mem : table.InGroup orig slot) :
    slot < table.numFd := by
  rcases mem with rfl | refers
  · exact linked.slot_lt use
  · exact linked.slot_lt (linked.inUse_of_alias refers)

/-! ### A new alias -/

section Duplicate

variable {duplicate orig : Nat} (differ : duplicate ≠ orig)
  (isOriginal : (table.fds orig).orig = none)

include differ isOriginal

theorem duplicateFd_eq : table.duplicateFd duplicate orig =
      (table.set duplicate { table.fds orig with orig := some orig }).set orig
        { table.fds orig with nextAlias := some duplicate } := by
  have first : (((table.set duplicate { table.fds orig with
      orig := none, nextAlias := none }).fds orig).orig).getD orig = orig := by
    rw [set_fds_of_ne differ.symm, isOriginal]
    rfl
  unfold duplicateFd setOriginal setNextAlias
  dsimp only
  rw [first]
  simp only [set_fds_self, set_fds_of_ne differ.symm]
  simp only [set, Function.update_idem]

theorem duplicateFd_original : (table.duplicateFd duplicate orig).fds orig =
      { table.fds orig with nextAlias := some duplicate } := by
  rw [duplicateFd_eq differ isOriginal, set_fds_self]

theorem duplicateFd_duplicate : (table.duplicateFd duplicate orig).fds duplicate =
      { table.fds orig with orig := some orig } := by
  rw [duplicateFd_eq differ isOriginal, set_fds_of_ne differ, set_fds_self]

theorem duplicateFd_of_ne {slot : Nat} (notDuplicate : slot ≠ duplicate)
    (notOriginal : slot ≠ orig) :
    (table.duplicateFd duplicate orig).fds slot = table.fds slot := by
  rw [duplicateFd_eq differ isOriginal, set_fds_of_ne notOriginal, set_fds_of_ne notDuplicate]

theorem Linked.duplicateFd (linked : table.Linked) (inside : duplicate < table.numFd)
    (unlinked : table.Unlinked duplicate) (use : (table.fds orig).inUse) :
    Regrouped table (table.duplicateFd duplicate orig)
      (fun slot => table.InGroup orig slot \/ slot = duplicate) orig := by
  have alone := linked.no_alias_of_unlinked unlinked
  have atOriginal := duplicateFd_original differ isOriginal
  have atDuplicate := duplicateFd_duplicate differ isOriginal
  have elsewhere := fun slot => @duplicateFd_of_ne table _ _ differ isOriginal slot
  have size : (table.duplicateFd duplicate orig).numFd = table.numFd := rfl
  refine ⟨size, le_rfl, ?_, ?_, ?_, ?_, Or.inl (Or.inl rfl), ?_, ?_, ?_, ?_⟩
  · intro slot apart
    exact elsewhere slot (fun same => apart (Or.inr same)) (fun same => apart (Or.inl (Or.inl same)))
  · intro slot refersTo refers
    have inGroup := linked.closed_inGroup isOriginal refers
    have notSlot : slot ≠ duplicate := by
      rintro rfl
      rw [unlinked.1] at refers
      cases refers
    have notRefersTo : refersTo ≠ duplicate := by
      rintro rfl
      exact alone slot refers
    exact or_congr inGroup (iff_of_false notSlot notRefersTo)
  · rintro slot (mem | rfl)
    · exact linked.slot_lt_of_inGroup use mem
    · exact inside
  · rintro slot mem notOriginal
    right
    rw [atOriginal]
    rcases eq_or_ne slot duplicate with rfl | notDuplicate
    · rw [atDuplicate]
      exact ⟨use, rfl, use, rfl⟩
    · rw [elsewhere slot notDuplicate notOriginal]
      have refers : (table.fds slot).orig = some orig := by
        rcases mem with (same | refers) | same
        · exact (notOriginal same).elim
        · exact refers
        · exact (notDuplicate same).elim
      exact ⟨linked.inUse_of_alias refers, refers, use, (linked.aliased slot orig refers).2.2⟩
  · rw [atOriginal]
    exact isOriginal
  · intro vacant
    rw [atOriginal] at vacant
    exact absurd (use.symm.trans vacant) (by simp)
  · rcases linked.lists orig use isOriginal with ⟨aliases, has⟩
    have notMember : duplicate ∉ aliases := fun mem => by
      cases unlinked.1.symm.trans ((has.members _).mp mem)
    have originalNotMember := (nodup_cons.mp has.distinct).1
    have sameLinks : ∀ slot ∈ aliases,
        (table.duplicateFd duplicate orig).links slot = table.links slot := by
      intro slot mem
      apply congrArg Fd.nextAlias
      exact elsewhere slot (fun same => notMember (same ▸ mem))
        (fun same => originalNotMember (same ▸ mem))
    refine ⟨duplicate :: aliases, ⟨?_, ?_⟩, ?_, ?_⟩
    · exact congrArg Fd.nextAlias atOriginal
    · have next : (table.duplicateFd duplicate orig).links duplicate = table.links orig := by
        unfold links
        rw [atDuplicate]
      rw [next]
      exact has.chain.congr sameLinks
    · refine nodup_cons.mpr ⟨?_, nodup_cons.mpr ⟨notMember, (nodup_cons.mp has.distinct).2⟩⟩
      intro mem
      rcases mem_cons.mp mem with same | later
      · exact differ same.symm
      · exact originalNotMember later
    · intro slot
      rw [mem_cons]
      rcases eq_or_ne slot duplicate with rfl | notDuplicate
      · rw [atDuplicate]
        exact iff_of_true (Or.inl rfl) ⟨Or.inr rfl, rfl⟩
      · rcases eq_or_ne slot orig with rfl | notOriginal
        · rw [atOriginal]
          refine iff_of_false ?_ ?_
          · rintro (same | mem)
            · exact notDuplicate same
            · exact originalNotMember mem
          · rintro ⟨_, refers⟩
            exact absurd (isOriginal.symm.trans refers) (by simp)
        · rw [elsewhere slot notDuplicate notOriginal, has.members slot]
          constructor
          · rintro (same | refers)
            · exact (notDuplicate same).elim
            · exact ⟨Or.inl (Or.inr refers), refers⟩
          · rintro ⟨_, refers⟩
            exact Or.inr refers
  · intro _
    rw [atOriginal]
    refine ⟨linked.fresh orig use, fun slot apart slotUse slotOriginal => ?_⟩
    exact linked.serial_ne use isOriginal (fun mem => apart (Or.inl mem)) slotUse slotOriginal

end Duplicate

/-! ### An alias is closed -/

theorem Linked.length_lt (linked : table.Linked) {aliases : List Nat}
    (use : (table.fds orig).inUse) (has : table.HasAliases orig aliases) :
    aliases.length < table.numFd := by
  have subset : orig :: aliases ⊆ List.range table.numFd := by
    intro slot mem
    apply mem_range.mpr
    apply linked.slot_lt_of_inGroup use
    rcases mem_cons.mp mem with same | later
    · exact Or.inl same
    · exact Or.inr ((has.members slot).mp later)
  have bound := (has.distinct.subperm subset).length_le
  rw [length_range] at bound
  exact bound

theorem unlinkFrom_chain {fd : Nat} (fuel first : Nat) (rest : List Nat)
    (chain : IsChain table.links (table.links first) rest) (distinct : (first :: rest).Nodup)
    (mem : fd ∈ rest) (enough : rest.length <= fuel) :
    ∃ before, table.unlinkFrom fd fuel (some first) =
        some (table.setNextAlias before (table.links fd)) /\
      before ∈ first :: rest /\ before ≠ fd /\
      IsChain (Function.update table.links before (table.links fd))
        (Function.update table.links before (table.links fd) first) (rest.erase fd) := by
  induction rest generalizing first fuel with
  | nil => cases mem
  | cons second rest ih =>
    cases fuel with
    | zero => exact absurd enough (by simp)
    | succ fuel =>
    have notFirst := (nodup_cons.mp distinct).1
    rcases eq_or_ne second fd with rfl | other
    · refine ⟨first, ?_, mem_cons_self, ?_, ?_⟩
      · exact if_pos chain.1
      · rintro rfl
        exact notFirst mem_cons_self
      · rw [erase_cons_head]
        exact IsChain.skip chain distinct
    · have later : fd ∈ rest := by
        rcases mem_cons.mp mem with same | later
        · exact (other same.symm).elim
        · exact later
      rcases ih fuel second chain.2 (nodup_cons.mp distinct).2 later
        (Nat.le_of_succ_le_succ enough) with ⟨before, found, inRest, apart, erased⟩
      have notBefore : first ≠ before := fun same => notFirst (same ▸ inRest)
      refine ⟨before, ?_, mem_cons_of_mem _ inRest, apart, ?_⟩
      · rw [<- found, <- chain.1]
        exact if_neg fun same => other (Option.some.inj (chain.1.symm.trans same))
      · rw [erase_cons_tail (by simpa using other), Function.update_of_ne notBefore]
        exact ⟨chain.1, erased⟩

theorem Linked.detach (linked : table.Linked) {fd orig : Nat}
    (refers : (table.fds fd).orig = some orig) :
    ∃ unlinked, table.removeFdAlias fd = some unlinked /\
      Regrouped table (unlinked.set fd .zero) (table.InGroup orig) orig /\
      ∀ slot, slot ≠ fd -> ∃ next,
        (unlinked.set fd .zero).fds slot = { table.fds slot with nextAlias := next } := by
  obtain ⟨use, isOriginal, _⟩ := linked.aliased fd orig refers
  rcases linked.lists orig use isOriginal with ⟨aliases, has⟩
  have notOriginal : orig ≠ fd := by
    rintro rfl
    exact absurd (isOriginal.symm.trans refers) (by simp)
  have originalNotMember := (nodup_cons.mp has.distinct).1
  rcases unlinkFrom_chain (table.numFd + 1) orig aliases has.chain has.distinct
    ((has.members fd).mpr refers) (by have := linked.length_lt use has; omega) with
    ⟨before, found, inGroup, apart, erased⟩
  have removed : table.removeFdAlias fd = some (table.setNextAlias before (table.links fd)) := by
    unfold removeFdAlias
    rw [refers]
    exact found
  -- all entries but the alias keep everything except, possibly, their link
  have elsewhere : ∀ slot, slot ≠ fd ->
      ((table.setNextAlias before (table.links fd)).set fd .zero).fds slot =
        { table.fds slot with
          nextAlias := Function.update table.links before (table.links fd) slot } := by
    intro slot differ
    rw [set_fds_of_ne differ]
    unfold setNextAlias
    rcases eq_or_ne slot before with rfl | other
    · rw [set_fds_self, Function.update_self]
    · rw [set_fds_of_ne other, Function.update_of_ne other]
      rfl
  have sameLinks : ∀ slot, slot ≠ fd ->
      ((table.setNextAlias before (table.links fd)).set fd .zero).links slot =
        Function.update table.links before (table.links fd) slot := fun slot differ =>
    congrArg Fd.nextAlias (elsewhere slot differ)
  have beforeInGroup : table.InGroup orig before := by
    rcases mem_cons.mp inGroup with same | later
    · exact Or.inl same
    · exact Or.inr ((has.members before).mp later)
  refine ⟨_, removed, ?_, fun slot differ => ⟨_, elsewhere slot differ⟩⟩
  refine ⟨rfl, le_rfl, ?_, fun slot refersTo => linked.closed_inGroup isOriginal,
    fun slot => linked.slot_lt_of_inGroup use, ?_, Or.inl rfl, ?_, ?_, ?_, ?_⟩
  · intro slot outside
    have differ : slot ≠ fd := fun same => outside (Or.inr (same ▸ refers))
    have notBefore : slot ≠ before := fun same => outside (same ▸ beforeInGroup)
    rw [elsewhere slot differ, Function.update_of_ne notBefore]
    rfl
  · intro slot mem differ
    rcases eq_or_ne slot fd with rfl | other
    · left
      rw [Unlinked, set_fds_self]
      exact ⟨rfl, rfl, rfl⟩
    · right
      have slotRefers := mem.resolve_left differ
      rw [elsewhere slot other, elsewhere orig notOriginal]
      exact ⟨linked.inUse_of_alias slotRefers, slotRefers, use,
        (linked.aliased slot orig slotRefers).2.2⟩
  · rw [elsewhere orig notOriginal]
    exact isOriginal
  · intro vacant
    rw [elsewhere orig notOriginal] at vacant
    exact absurd (use.symm.trans vacant) (by simp)
  · have distinctAliases := (nodup_cons.mp has.distinct).2
    refine ⟨aliases.erase fd, ?_, ?_, ?_⟩
    · rw [sameLinks orig notOriginal]
      refine erased.congr fun slot mem => sameLinks slot ?_
      rintro rfl
      exact distinctAliases.not_mem_erase mem
    · exact nodup_cons.mpr
        ⟨fun mem => originalNotMember (mem_of_mem_erase mem), distinctAliases.erase fd⟩
    · intro slot
      rw [distinctAliases.mem_erase_iff, has.members slot]
      rcases eq_or_ne slot fd with rfl | other
      · rw [set_fds_self]
        exact iff_of_false (fun both => both.1 rfl) (fun both => by cases both.2)
      · rw [elsewhere slot other]
        exact ⟨fun both => ⟨Or.inr both.2, both.2⟩, fun both => ⟨other, both.2⟩⟩
  · intro _
    rw [elsewhere orig notOriginal]
    exact ⟨linked.fresh orig use, fun slot outside => linked.serial_ne use isOriginal outside⟩

/-! ### An original is closed -/

theorem redirectFrom_chain {firstAlias fuel : Nat} {start : Option Nat} {rest : List Nat}
    (chain : IsChain table.links start rest) (enough : rest.length <= fuel) :
    ∃ after, redirectFrom firstAlias fuel start table = some after /\
      after.numFd = table.numFd /\ after.opened = table.opened /\
      ∀ slot, after.fds slot =
        if slot ∈ rest then { table.fds slot with orig := some firstAlias }
        else table.fds slot := by
  induction rest generalizing table start fuel with
  | nil =>
    refine ⟨table, ?_, rfl, rfl, fun slot => (if_neg not_mem_nil).symm⟩
    rw [show start = none from chain]
    cases fuel <;> rfl
  | cons cell rest ih =>
    cases fuel with
    | zero => exact absurd enough (by simp)
    | succ fuel =>
    have sameLinks : (table.setOriginal cell firstAlias).links = table.links := by
      funext slot
      unfold links setOriginal
      rcases eq_or_ne slot cell with rfl | other
      · rw [set_fds_self]
      · rw [set_fds_of_ne other]
    rcases @ih (table.setOriginal cell firstAlias) fuel (table.links cell)
      (sameLinks ▸ chain.2) (Nat.le_of_succ_le_succ enough) with
      ⟨after, result, numFd, opened, entries⟩
    refine ⟨after, ?_, numFd, opened, fun slot => ?_⟩
    · rw [chain.1, <- result, <- congrFun sameLinks cell]
      rfl
    · rw [entries slot]
      unfold setOriginal
      rcases eq_or_ne slot cell with rfl | other
      · rw [set_fds_self, if_pos mem_cons_self, ite_self]
      · rw [set_fds_of_ne other]
        simp only [mem_cons, other, false_or]

theorem Linked.promote (linked : table.Linked) {fd firstAlias : Nat}
    (isOriginal : (table.fds fd).orig = none)
    (next : (table.fds fd).nextAlias = some firstAlias) :
    ∃ unlinked, table.removeFdAlias fd = some unlinked /\
      Regrouped table (unlinked.set fd .zero) (table.InGroup fd) firstAlias := by
  have use : (table.fds fd).inUse := by
    rcases use : (table.fds fd).inUse with _ | _
    · rw [(linked.vacant fd use).2] at next
      cases next
    · rfl
  rcases linked.lists fd use isOriginal with ⟨aliases, has⟩
  obtain ⟨rest, rfl⟩ : ∃ rest, aliases = firstAlias :: rest := by
    have chain := has.chain
    unfold links at chain
    rw [next] at chain
    cases aliases with
    | nil => cases chain
    | cons cell rest =>
      rw [Option.some.inj chain.1]
      exact ⟨rest, rfl⟩
  have fdNotMember := (nodup_cons.mp has.distinct).1
  have firstNotMember := (nodup_cons.mp (nodup_cons.mp has.distinct).2).1
  have notFirst : firstAlias ≠ fd := fun same => fdNotMember (same ▸ mem_cons_self)
  have firstRefers := (has.members firstAlias).mp mem_cons_self
  have copied : IsChain
      (table.set firstAlias { table.fds fd with
        nextAlias := (table.fds firstAlias).nextAlias, orig := none }).links
      (table.fds firstAlias).nextAlias rest := by
    refine has.chain.2.congr fun slot mem => ?_
    apply congrArg Fd.nextAlias
    apply set_fds_of_ne
    rintro rfl
    exact firstNotMember mem
  have short : rest.length <= table.numFd + 1 := by
    have bound := linked.length_lt use has
    rw [length_cons] at bound
    omega
  rcases redirectFrom_chain copied short with
    ⟨unlinked, result, numFd, opened, entries⟩
  have removed : table.removeFdAlias fd = some unlinked := by
    unfold removeFdAlias
    rw [isOriginal]
    rw [next]
    exact result
  have atFirst : (unlinked.set fd .zero).fds firstAlias =
      { table.fds fd with
        nextAlias := (table.fds firstAlias).nextAlias, orig := none } := by
    rw [set_fds_of_ne notFirst, entries firstAlias, if_neg firstNotMember, set_fds_self]
  have atRest : ∀ slot ∈ rest, (unlinked.set fd .zero).fds slot =
      { table.fds slot with orig := some firstAlias } := by
    intro slot mem
    have notFd : slot ≠ fd := fun same => fdNotMember (same ▸ mem_cons_of_mem _ mem)
    have other : slot ≠ firstAlias := fun same => firstNotMember (same ▸ mem)
    rw [set_fds_of_ne notFd, entries slot, if_pos mem, set_fds_of_ne other]
  refine ⟨unlinked, removed, numFd, opened.ge, ?_,
    fun slot refersTo => linked.closed_inGroup isOriginal,
    fun slot => linked.slot_lt_of_inGroup use, ?_, Or.inr firstRefers, ?_, ?_, ?_, ?_⟩
  · intro slot outside
    have notFd : slot ≠ fd := fun same => outside (Or.inl same)
    have other : slot ≠ firstAlias := fun same => outside (Or.inr (same ▸ firstRefers))
    have notMember : slot ∉ rest := fun mem =>
      outside (Or.inr ((has.members slot).mp (mem_cons_of_mem _ mem)))
    rw [set_fds_of_ne notFd, entries slot, if_neg notMember, set_fds_of_ne other]
  · intro slot mem differ
    rcases eq_or_ne slot fd with rfl | other
    · left
      rw [Unlinked, set_fds_self]
      exact ⟨rfl, rfl, rfl⟩
    · right
      have refers := mem.resolve_left other
      have inRest := (mem_cons.mp ((has.members slot).mpr refers)).resolve_left differ
      rw [atRest slot inRest, atFirst]
      exact ⟨linked.inUse_of_alias refers, rfl, use, (linked.aliased slot fd refers).2.2⟩
  · rw [atFirst]
  · intro vacant
    rw [atFirst] at vacant
    exact absurd (use.symm.trans vacant) (by simp)
  · refine ⟨rest, ?_, (nodup_cons.mp has.distinct).2, ?_⟩
    · have start : (unlinked.set fd .zero).links firstAlias = table.links firstAlias := by
        unfold links
        rw [atFirst]
      rw [start]
      refine has.chain.2.congr fun slot mem => ?_
      unfold links
      rw [atRest slot mem]
    · intro slot
      constructor
      · intro mem
        rw [atRest slot mem]
        exact ⟨Or.inr ((has.members slot).mp (mem_cons_of_mem _ mem)), rfl⟩
      · rintro ⟨inGroup, refers⟩
        rcases eq_or_ne slot fd with rfl | other
        · rw [set_fds_self] at refers
          cases refers
        · have inList := (has.members slot).mpr (inGroup.resolve_left other)
          refine (mem_cons.mp inList).resolve_left ?_
          rintro rfl
          rw [atFirst] at refers
          cases refers
  · intro _
    rw [atFirst]
    refine ⟨?_, fun slot outside => linked.serial_ne use isOriginal outside⟩
    rw [set_opened, opened]
    exact linked.fresh fd use

end Table

end Clib4.Unistd
