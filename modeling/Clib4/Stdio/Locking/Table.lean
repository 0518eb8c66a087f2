import Clib4.Stdio.Locking.Handler

namespace Clib4.Stdio.Locking

open Foundation List

/-!
# What holds of the lock list

Whatever the processes do and in whatever order: regions of one file that
overlap and belong to different owners are shared, no file has two nodes and
no node is without regions.  Every step changes the list in one of four ways;
each of them keeps the list consistent.
-/

/-- Two regions have a byte in common, for regions that are not empty. -/
def LockedRegionNode.Overlaps (first second : LockedRegionNode) : Prop :=
  first.start <= second.stop /\ second.start <= first.stop

/-- Regions of different owners overlap only where both are shared. -/
def LockedRegionNode.Compatible (first second : LockedRegionNode) : Prop :=
  first.Overlaps second -> first.owner ≠ second.owner -> first.shared /\ second.shared

variable {naming : Naming}

def FileLockNode.SameFile (first second : FileLockNode naming) : Prop :=
  first.isFor second.fileParentDir second.fileName

/-- What holds of every lock list. -/
structure Consistent (list : List (FileLockNode naming)) : Prop where
  compatible : ∀ first ∈ list, ∀ second ∈ list, first.SameFile second ->
    ∀ region ∈ first.lockedRegionList, ∀ other ∈ second.lockedRegionList, region.Compatible other
  unique : list.Pairwise fun first second => ¬ first.SameFile second
  nonempty : ∀ node ∈ list, node.lockedRegionList ≠ []

/-! ## Files and regions -/

variable {dir : naming.Dir} {name : naming.Name}

theorem FileLockNode.isFor_iff {node : FileLockNode naming} : node.isFor dir name = true ↔
      naming.sameLock node.fileParentDir dir /\ naming.stricmp node.fileName name := by
  exact Bool.and_eq_true_iff

variable {first second : FileLockNode naming}

theorem FileLockNode.SameFile.symm (same : first.SameFile second) : second.SameFile first := by
  have both := FileLockNode.isFor_iff.mp same
  exact FileLockNode.isFor_iff.mpr ⟨naming.sameLock_equivalence.symm both.1,
    naming.stricmp_equivalence.symm both.2⟩

theorem FileLockNode.SameFile.of_isFor
    (here : first.isFor dir name) (there : second.isFor dir name) :
    first.SameFile second := by
  have firstBoth := FileLockNode.isFor_iff.mp here
  have secondBoth := FileLockNode.isFor_iff.mp there
  exact FileLockNode.isFor_iff.mpr
    ⟨naming.sameLock_equivalence.trans firstBoth.1 (naming.sameLock_equivalence.symm secondBoth.1),
      naming.stricmp_equivalence.trans firstBoth.2 (naming.stricmp_equivalence.symm secondBoth.2)⟩

theorem LockedRegionNode.Compatible.symm {first second : LockedRegionNode}
    (compatible : first.Compatible second) : second.Compatible first := by
  intro overlaps differ
  exact (compatible ⟨overlaps.2, overlaps.1⟩ differ.symm).symm

theorem LockedRegionNode.compatible_self {region : LockedRegionNode} : region.Compatible region :=
  fun _ differ => absurd rfl differ

theorem LockedRegionNode.compatible_of_not_collides {stored new : LockedRegionNode}
    (free : stored.collides new.owner new.start new.stop new.shared = false) :
    stored.Compatible new := by
  intro overlaps differ
  unfold LockedRegionNode.collides at free
  have bothShared : ¬ (new.shared = false \/ stored.shared = false) := by
    intro excl
    have owners : (stored.owner != new.owner) := by
      rw [bne_iff_ne]
      exact differ
    rw [owners, decide_eq_true overlaps.1, decide_eq_true overlaps.2] at free
    rcases excl with excl | excl <;> simp [excl] at free
  simp only [not_or, Bool.not_eq_false] at bothShared
  exact ⟨bothShared.2, bothShared.1⟩

variable {list : List (FileLockNode naming)}

theorem Consistent.eq_of_sameFile (valid : Consistent list)
    (inFirst : first ∈ list) (inSecond : second ∈ list)
    (same : first.SameFile second) : first = second := by
  by_contra differ
  have : Std.Symm fun one two : FileLockNode naming => ¬ one.SameFile two :=
    ⟨fun _ _ notSame => fun back => notSame back.symm⟩
  exact valid.unique.forall inFirst inSecond differ same

theorem FileLockNode.sameFile_self (node : FileLockNode naming) : node.SameFile node :=
  FileLockNode.isFor_iff.mpr
    ⟨naming.sameLock_equivalence.refl _, naming.stricmp_equivalence.refl _⟩

/-! ## The four ways the list changes -/

/-- What a step does to the list. -/
inductive ListChange (list : List (FileLockNode naming)) : List (FileLockNode naming) -> Prop
  | same : ListChange list list
  | added (dir : naming.Dir) (name : naming.Name) (region : LockedRegionNode)
      (existing : FileLockNode naming)
      (found : findFileLockNodeByDrawerAndName list dir name = some existing)
      (free : findCollidingRegion existing region.owner region.start region.stop
        region.shared = none) : ListChange list (addToNode dir name region list)
  | created (dir : naming.Dir) (name : naming.Name) (region : LockedRegionNode)
      (missing : findFileLockNodeByDrawerAndName list dir name = none) :
      ListChange list (addNode ⟨dir, name, []⟩ region list)
  | dropped (dir : naming.Dir) (name : naming.Name) (drop : LockedRegionNode -> Bool) :
      ListChange list (dropFromNode dir name drop list)

theorem Consistent.nil : Consistent ([] : List (FileLockNode naming)) where
  compatible := by simp
  unique := List.Pairwise.nil
  nonempty := by simp

section

variable (valid : Consistent list)
include valid

theorem Consistent.modify {test : FileLockNode naming -> Bool}
    {change : FileLockNode naming -> Option (FileLockNode naming)}
    (names : ∀ old new, change old = some new -> new.fileParentDir = old.fileParentDir /\
      new.fileName = old.fileName)
    (filled : ∀ old new, change old = some new -> new.lockedRegionList ≠ [])
    (regions : ∀ old new, list.find? test = some old -> change old = some new -> ∀ region ∈
      new.lockedRegionList, (∀ other ∈ old.lockedRegionList, other.Compatible region) /\ ∀ other ∈
      new.lockedRegionList, other.Compatible region) :
    Consistent (modifyFirst test change list) := by
  have sameAsOld {old new : FileLockNode naming} (changed : change old = some new)
      (other : FileLockNode naming) :
      (new.SameFile other ↔ old.SameFile other) /\ (other.SameFile new ↔ other.SameFile old) := by
    rcases names old new changed with ⟨dirs, fileNames⟩
    unfold FileLockNode.SameFile FileLockNode.isFor
    rw [dirs, fileNames]
    exact ⟨Iff.rfl, Iff.rfl⟩
  -- an entry that was there before, next to the one that has changed
  have beside {entry old new : FileLockNode naming} (mem : entry ∈ list)
      (found : list.find? test = some old) (changed : change old = some new)
      (same : entry.SameFile new) :
      ∀ other ∈ entry.lockedRegionList, ∀ region ∈ new.lockedRegionList,
        other.Compatible region := by
    have entryEq := valid.eq_of_sameFile mem (List.mem_of_find?_eq_some found) ((sameAsOld
      changed entry).2.mp same)
    subst entryEq
    intro other inOther region inRegion
    exact (regions entry new found changed region inRegion).1 other inOther
  refine ⟨?_, ?_, ?_⟩
  · intro first inFirst second inSecond same region inRegion other inOther
    rcases mem_modifyFirst inFirst with before | ⟨old, found, changed⟩ <;>
      rcases mem_modifyFirst inSecond with before' | ⟨old', found', changed'⟩
    · exact valid.compatible first before second before' same region inRegion other inOther
    · exact beside before found' changed' same region inRegion other inOther
    · exact (beside before' found changed same.symm other inOther region inRegion).symm
    · have olds := Option.some.inj (found.symm.trans found')
      subst olds
      have news := Option.some.inj (changed.symm.trans changed')
      subst news
      exact (regions old first found changed other inOther).2 region inRegion
  · refine pairwise_modifyFirst ?_ valid.unique
    intro old new changed other
    exact ⟨fun apart same => apart ((sameAsOld changed other).1.mp same),
      fun apart same => apart ((sameAsOld changed other).2.mp same)⟩
  · intro node mem
    rcases mem_modifyFirst mem with before | ⟨old, _, changed⟩
    · exact valid.nonempty node before
    · exact filled old node changed

theorem Consistent.addToNode {region : LockedRegionNode} {existing : FileLockNode naming}
    (found : findFileLockNodeByDrawerAndName list dir name = some existing)
    (free : findCollidingRegion existing region.owner region.start region.stop region.shared = none) :
    Consistent (addToNode dir name region list) := by
  apply valid.modify
  · rintro old new ⟨⟩
    exact ⟨rfl, rfl⟩
  · rintro old new ⟨⟩
    exact append_ne_nil_of_right_ne_nil _ (cons_ne_nil _ _)
  · rintro old new foundOld ⟨⟩ added inNew
    have olds := Option.some.inj (found.symm.trans foundOld)
    subst olds
    have inList := List.mem_of_find?_eq_some found
    have within := valid.compatible existing inList existing inList existing.sameFile_self
    have against : ∀ other ∈ existing.lockedRegionList, other.Compatible region := by
      intro other inOther
      apply LockedRegionNode.compatible_of_not_collides
      exact Bool.eq_false_iff.mpr (List.find?_eq_none.mp free other inOther)
    have inNewCases {entry : LockedRegionNode}
        (mem : entry ∈ existing.lockedRegionList ++ [region]) :
        entry ∈ existing.lockedRegionList \/ entry = region := by
      simpa using mem
    have withOld : ∀ other ∈ existing.lockedRegionList, other.Compatible added := by
      intro other inOther
      rcases inNewCases inNew with inOld | rfl
      · exact within other inOther added inOld
      · exact against other inOther
    refine ⟨withOld, fun other inOther => ?_⟩
    rcases inNewCases inOther with inOld | rfl
    · exact withOld other inOld
    · rcases inNewCases inNew with inOld | rfl
      · exact (against added inOld).symm
      · exact LockedRegionNode.compatible_self

theorem Consistent.dropFromNode (dir : naming.Dir) (name : naming.Name)
    (drop : LockedRegionNode -> Bool) : Consistent (dropFromNode dir name drop list) := by
  have changedTo {old new : FileLockNode naming} (changed : dropRegions drop old = some new) :
      old.lockedRegionList.filter (fun region => !drop region) ≠ [] /\ new = { old with
          lockedRegionList := old.lockedRegionList.filter fun region => !drop region } := by
    unfold dropRegions at changed
    dsimp only at changed
    split at changed
    · exact absurd changed (by simp)
    · rename_i left
      exact ⟨fun empty => left (by rw [empty]; rfl), (Option.some.inj changed).symm⟩
  apply valid.modify
  · intro old new changed
    rw [(changedTo changed).2]
    exact ⟨rfl, rfl⟩
  · intro old new changed
    rw [(changedTo changed).2]
    exact (changedTo changed).1
  · intro old new found changed region inNew
    have inList := List.mem_of_find?_eq_some found
    have within := valid.compatible old inList old inList old.sameFile_self
    have kept {entry : LockedRegionNode} (mem : entry ∈ new.lockedRegionList) :
        entry ∈ old.lockedRegionList := by
      rw [(changedTo changed).2] at mem
      exact mem_of_mem_filter mem
    exact ⟨fun other inOther => within other inOther region (kept inNew),
      fun other inOther => within other (kept inOther) region (kept inNew)⟩

theorem Consistent.addNode (region : LockedRegionNode)
    (missing : findFileLockNodeByDrawerAndName list dir name = none) :
    Consistent (addNode ⟨dir, name, []⟩ region list) := by
  have apart : ∀ node ∈ list, ¬ node.SameFile ⟨dir, name, [region]⟩ :=
    fun node mem => List.find?_eq_none.mp missing node mem
  have cases {node : FileLockNode naming} (mem : node ∈ Locking.addNode ⟨dir, name, []⟩ region list) :
      node ∈ list \/ node = ⟨dir, name, [region]⟩ := by
    rcases mem_append.mp mem with before | new
    · exact Or.inl before
    · exact Or.inr (mem_singleton.mp new)
  refine ⟨?_, ?_, ?_⟩
  · intro first inFirst second inSecond same one inOne two inTwo
    rcases cases inFirst with before | rfl <;> rcases cases inSecond with before' | rfl
    · exact valid.compatible first before second before' same one inOne two inTwo
    · exact absurd same (apart first before)
    · exact absurd same.symm (apart second before')
    · rw [mem_singleton.mp inOne, mem_singleton.mp inTwo]
      exact LockedRegionNode.compatible_self
  · refine pairwise_append.mpr ⟨valid.unique, pairwise_singleton _ _, ?_⟩
    intro node mem new isNew
    rw [mem_singleton.mp isNew]
    exact apart node mem
  · intro node mem
    rcases cases mem with before | rfl
    · exact valid.nonempty node before
    · exact cons_ne_nil _ _

end

theorem Consistent.change {list next : List (FileLockNode naming)} (valid : Consistent list)
    (change : ListChange list next) : Consistent next := by
  cases change with
  | same => exact valid
  | added dir name region existing found free => exact valid.addToNode found free
  | created dir name region missing => exact valid.addNode region missing
  | dropped dir name drop => exact valid.dropFromNode dir name drop

/-! ## Steps and runs -/

/-- A waiting request carries an empty node for its own file. -/
def System.Prepared (sys : System naming) : Prop :=
  ∀ request ∈ sys.waiting, request.node = ⟨request.parentDir, request.name, []⟩

theorem findFileLockNodeByFileHandle_notFound {handle : Handle naming} {answers : Answers}
    (missed : findFileLockNodeByFileHandle list handle answers = .error errorObjectNotFound) :
    findFileLockNodeByDrawerAndName list handle.parentDir handle.name = none := by
  unfold findFileLockNodeByFileHandle at missed
  split at missed
  · rename_i error examined
    rw [Except.error.inj missed] at examined
    exact absurd examined answers.examine_found
  · split at missed
    · rename_i error examined
      rw [Except.error.inj missed] at examined
      exact absurd examined answers.parent_found
    · split at missed
      · exact absurd missed (by simp)
      · assumption

theorem findFileLockNodeByFileHandle_ok
    {handle : Handle naming} {answers : Answers} {node : FileLockNode naming}
    (found : findFileLockNodeByFileHandle list handle answers = .ok node) :
    findFileLockNodeByDrawerAndName list handle.parentDir handle.name = some node := by
  unfold findFileLockNodeByFileHandle at found
  split at found
  · exact absurd found (by simp)
  · split at found
    · exact absurd found (by simp)
    · split at found
      · rename_i present
        rw [present, Except.ok.inj found]
      · exact absurd found (by simp)

namespace System

/-- What a step may do to a system. -/
structure Moves (sys next : System naming) : Prop where
  list : ListChange sys.lockList next.lockList
  prepared : sys.Prepared -> next.Prepared

section

variable (sys : System naming)

theorem Moves.refl : Moves sys sys := ⟨.same, id⟩

section

variable (fd : Nat) (handle : Handle naming)

theorem moves_removeLockedRegionNode (start length : Int) (answers : Answers) :
    Moves sys (sys.removeLockedRegionNode fd handle start length answers) := by
  unfold removeLockedRegionNode
  split
  · split
    · unfold removeRegions
      split <;> exact ⟨.dropped _ _ _, id⟩
    · exact Moves.refl sys
  · exact Moves.refl sys

theorem moves_cleanupLockedRecords (answers : Answers) :
    Moves sys (sys.cleanupLockedRecords fd handle answers) := by
  unfold cleanupLockedRecords
  split
  · split
    · exact ⟨.dropped _ _ _, id⟩
    · split
      · exact ⟨.same, id⟩
      · exact Moves.refl sys
  · exact Moves.refl sys

theorem moves_turn (request : Waiting naming)
    (ready : request.node = ⟨request.parentDir, request.name, []⟩) (semaphore : Bool) :
    Moves sys (sys.turn request semaphore).2 := by
  unfold turn poll
  split
  · cases found : findFileLockNodeByDrawerAndName sys.lockList request.parentDir request.name with
    | none =>
      rw [ready]
      exact ⟨.created _ _ _ found, id⟩
    | some existing =>
      dsimp only
      cases free : findCollidingRegion existing request.region.owner request.region.start
          request.region.stop request.region.shared with
      | none => exact ⟨.added _ _ _ existing found free, id⟩
      | some _ =>
        refine ⟨.same, fun prepared => ?_⟩
        intro other mem
        rcases mem_append.mp mem with before | new
        · exact prepared other before
        · rw [mem_singleton.mp new]
          exact ready
  · exact Moves.refl sys

theorem moves_setlk (l : Flock) (region : LockedRegionNode) (owner : region.owner = handle.owner)
    (answers : Answers) :
    Moves sys
      (sys.setlk fd handle l ⟨handle.parentDir, handle.name, []⟩ region answers).2 := by
  unfold setlk
  split
  · exact Moves.refl sys
  · split
    · cases result : findFileLockNodeByFileHandle sys.lockList handle answers with
      | ok existing =>
        dsimp only
        cases free : findCollidingRegion existing handle.owner region.start region.stop
            region.shared with
        | none =>
          rw [<- owner] at free
          exact ⟨.added _ _ _ existing (findFileLockNodeByFileHandle_ok result) free, id⟩
        | some _ => exact Moves.refl sys
      | error error =>
        dsimp only
        by_cases missing : error = errorObjectNotFound
        · subst missing
          exact ⟨.created _ _ _ (findFileLockNodeByFileHandle_notFound result), id⟩
        · rw [if_neg missing]
          exact Moves.refl sys
    · exact Moves.refl sys

theorem moves_setlkw (l : Flock) (region : LockedRegionNode) (answers : Answers) : Moves sys
      (sys.setlkw fd handle l ⟨handle.parentDir, handle.name, []⟩ region answers).2 := by
  unfold setlkw
  split
  · split_ifs <;> exact Moves.refl sys
  · exact Moves.refl sys
  · exact Moves.refl sys
  · split
    · exact Moves.refl sys
    · exact moves_turn sys _ rfl _

end

end

/-- The nodes a request brings along are those of its own file and process. -/
def Matching (handle : Handle naming) (nodes : Option (FileLockNode naming × LockedRegionNode)) :
    Prop :=
  ∀ node region, nodes = some (node, region) ->
    node = ⟨handle.parentDir, handle.name, []⟩ /\ region.owner = handle.owner

theorem moves_handleRange {sys : System naming} {fd : Nat} {handle : Handle naming}
    {cmd : Command} {l : Flock} {nodes : Option (FileLockNode naming × LockedRegionNode)}
    (matching : Matching handle nodes) {answers : Answers} :
    Moves sys (sys.handleRange fd handle cmd l nodes answers).2 := by
  unfold handleRange
  split
  · exact Moves.refl sys
  · split
    · exact Moves.refl sys
    · split
      · split
        · exact moves_removeLockedRegionNode sys fd handle _ _ answers
        · exact Moves.refl sys
      · rcases matching _ _ rfl with ⟨rfl, _⟩
        exact moves_setlkw sys fd handle l _ answers
      · rcases matching _ _ rfl with ⟨rfl, owner⟩
        refine moves_setlk sys fd handle l _ ?_ answers
        exact owner
      · unfold getlk
        repeat' split
        all_goals exact Moves.refl sys
      · exact Moves.refl sys

theorem moves_handleRecordLocking {sys : System naming} {fd : Nat} {handle : Handle naming}
    {cmd : Command} {l : Flock} {answers : Answers} :
    Moves sys (sys.handleRecordLocking fd handle cmd l answers).2 := by
  unfold handleRecordLocking
  split
  · split
    · exact Moves.refl sys
    · rename_i node created
      split
      · exact Moves.refl sys
      · rename_i region made
        apply moves_handleRange
        rintro _ _ ⟨⟩
        constructor
        · unfold createFileLockNode at created
          split at created
          · exact absurd created (by simp)
          · split at created
            · split at created
              · exact absurd created (by simp)
              · exact (Except.ok.inj created).symm
            · exact absurd created (by simp)
        · unfold createLockedRegionNode at made
          split at made
          · rw [<- Except.ok.inj made]
          · exact absurd made (by simp)
  · split
    · exact moves_handleRange (fun _ _ none => absurd none (by simp))
    · exact Moves.refl sys

variable {sys : System naming}

theorem Prepared.eraseIdx (prepared : sys.Prepared) (idx : Nat) :
    Prepared { sys with waiting := sys.waiting.eraseIdx idx } :=
  fun request mem => prepared request (mem_of_mem_eraseIdx mem)

variable (handles : Nat -> Handle naming)

/-- One step of any process. -/
theorem step_keeps (valid : Consistent sys.lockList) (prepared : sys.Prepared)
    (step : Step) :
    Consistent (sys.step handles step).lockList /\ (sys.step handles step).Prepared := by
  have moved {next : System naming} (moves : Moves sys next) :
      Consistent next.lockList /\ next.Prepared :=
    ⟨valid.change moves.list, moves.prepared prepared⟩
  cases step with
  | request fd cmd l answers =>
    exact moved (moves_handleRecordLocking)
  | retry idx semaphore =>
    unfold System.step
    dsimp only
    split
    · exact ⟨valid, prepared⟩
    · rename_i request present
      have ready := prepared request (mem_of_getElem? present)
      have moves := moves_turn { sys with waiting := sys.waiting.eraseIdx idx } request
        ready semaphore
      exact ⟨valid.change moves.list, moves.prepared (prepared.eraseIdx idx)⟩
  | interrupt idx => exact ⟨valid, prepared.eraseIdx idx⟩
  | close fd last answers =>
    unfold System.step
    dsimp only
    split
    · exact moved (moves_cleanupLockedRecords sys fd (handles fd) answers)
    · exact ⟨valid, prepared⟩

theorem run_keeps (steps : List Step) (valid : Consistent sys.lockList)
    (prepared : sys.Prepared) : Consistent (sys.run handles steps).lockList := by
  induction steps generalizing sys with
  | nil => exact valid
  | cons step steps ih =>
    have kept := step_keeps handles valid prepared step
    exact ih kept.1 kept.2

theorem initial_prepared (naming : Naming) : (System.initial naming).Prepared :=
  forall_mem_nil _

end System

/-- In every lock list that any steps of any processes lead to: regions of one
file that overlap and belong to different owners are both shared, no two nodes
stand for the same file, and no node is without regions. -/
theorem lock_list_consistent (naming : Naming) (handles : Nat -> Handle naming)
    (steps : List Step) :
    Consistent ((System.initial naming).run handles steps).lockList :=
  System.run_keeps handles steps Consistent.nil (System.initial_prepared naming)

end Clib4.Stdio.Locking
