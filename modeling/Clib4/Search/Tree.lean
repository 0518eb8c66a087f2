import Clib4.Stdlib.QsortRound
import Mathlib.Tactic.SplitIfs

namespace Clib4.Search

open List

open Stdlib (Comparator)

/-!
# Binary search trees

`tsearch`, `tfind`, `tdelete`, `twalk` and `tdestroy`.  Whatever is called in whatever
order, the tree stands for a list of keys in ascending order.
-/

/-- The nodes below a link. -/
inductive Node (Key : Type)
  | null
  | node (llink : Node Key) (key : Key) (rlink : Node Key)

/-- How often `twalk` has come to a node. -/
inductive Visit
  | preorder | postorder | endorder | leaf
deriving DecidableEq

variable {Key : Type} (order : Comparator Key) (vkey : Key)

namespace Node

/-- `tfind`: the key of the node it finds. -/
def tfind : Node Key -> Option Key
  | null => none
  | node llink key rlink =>
    let r := order.cmp vkey key
    if r = 0 then some key else if r < 0 then tfind llink else tfind rlink

/-- `tsearch`: the key of the node it returns, and the tree.  `memory` is whether
`malloc` succeeds. -/
def tsearch (memory : Bool) : Node Key -> Option Key × Node Key
  | null => if memory then (some vkey, node null vkey null) else (none, null)
  | node llink key rlink =>
    let r := order.cmp vkey key
    if r = 0 then (some key, node llink key rlink)
    else if r < 0 then
      let left := tsearch memory llink
      (left.1, node left.2 key rlink)
    else
      let right := tsearch memory rlink
      (right.1, node llink key right.2)

/-- The loop that finds the successor of a deleted node, the first of the right
branch, and what is left of the branch. -/
def takeFirst : Node Key -> Key -> Node Key -> Key × Node Key
  | null, key, rlink => (key, rlink)
  | node llink first behind, key, rlink =>
    let taken := takeFirst llink first behind
    (taken.1, node taken.2 key rlink)

/-- What is linked in the place of a deleted node with these branches. -/
def replacement : Node Key -> Node Key -> Node Key
  | null, rlink => rlink
  | llink, null => llink
  | llink, node before key behind =>
    -- where `before` is null, the right branch itself moves up
    let taken := takeFirst before key behind
    node llink taken.1 taken.2

/-- `tdelete`: the key of the parent, where a node is found, and the tree.  The root has
no parent; its own address is returned. -/
def tdelete (parent : Option Key) : Node Key -> Option (Option Key) × Node Key
  | null => (none, null)
  | node llink key rlink =>
    let r := order.cmp vkey key
    if r = 0 then (some parent, replacement llink rlink)
    else if r < 0 then
      let left := tdelete (some key) llink
      (left.1, node left.2 key rlink)
    else
      let right := tdelete (some key) rlink
      (right.1, node llink key right.2)

/-- The calls of `action` in `trecurse`. -/
def trecurse (level : Nat) : Node Key -> List (Key × Visit × Nat)
  | null => []
  | node null key null => [(key, .leaf, level)]
  | node llink key rlink =>
    (key, .preorder, level) :: trecurse (level + 1) llink ++
      (key, .postorder, level) :: trecurse (level + 1) rlink ++ [(key, .endorder, level)]

/-- The keys that `tdestroy` gives to `free_action`, and whose nodes it frees. -/
def tdestroy : Node Key -> List Key
  | null => []
  | node llink key rlink => tdestroy llink ++ tdestroy rlink ++ [key]

def keys : Node Key -> List Key
  | null => []
  | node llink key rlink => keys llink ++ key :: keys rlink

end Node

/-- A call that changes the tree. -/
inductive Call (Key : Type)
  | tsearch (vkey : Key) (memory : Bool)
  | tdelete (vkey : Key)

def Call.perform (tree : Node Key) : Call Key -> Node Key
  | tsearch vkey memory => (tree.tsearch order vkey memory).2
  | tdelete vkey => (tree.tdelete order vkey none).2

/-! ## Lists in ascending order -/

/-- The keys of a list below a key, the one equal to it, and those above. -/
structure Cut (Key : Type) where
  below : List Key
  equal : Option Key
  above : List Key

def cut (keys : List Key) : Cut Key where
  below := keys.filter (0 < order.cmp vkey ·)
  equal := keys.find? (order.cmp vkey · = 0)
  above := keys.filter (order.cmp vkey · < 0)

/-- What a call means for a list: a key without an equal is put in its place, and the
one equal to a deleted key is taken out. -/
def Call.performOnList (keys : List Key) : Call Key -> List Key
  | tsearch vkey memory =>
    let parts := cut order vkey keys
    if parts.equal.isSome \/ !memory then keys else parts.below ++ vkey :: parts.above
  | tdelete vkey => (cut order vkey keys).below ++ (cut order vkey keys).above

def Ascending (keys : List Key) : Prop := keys.Pairwise (order.cmp · · < 0)

section

variable {order vkey} {a b c key : Key} {keys before behind : List Key}

theorem less_of_less_of_le (less : order.cmp a b < 0) (le : order.cmp b c <= 0) :
    order.cmp a c < 0 := by
  by_contra notLess
  have back := order.trans b c a le (order.le_of_compare_nonneg (not_lt.mp notLess))
  have greater := (order.flip a b).mp less
  omega

theorem less_of_le_of_less (le : order.cmp a b <= 0) (less : order.cmp b c < 0) :
    order.cmp a c < 0 := by
  by_contra notLess
  have back := order.trans c a b (order.le_of_compare_nonneg (not_lt.mp notLess)) le
  have greater := (order.flip b c).mp less
  omega

theorem cut_append : cut order vkey (before ++ behind) =
    ⟨(cut order vkey before).below ++ (cut order vkey behind).below,
      (cut order vkey before).equal.or (cut order vkey behind).equal,
      (cut order vkey before).above ++ (cut order vkey behind).above⟩ := by
  simp [cut]

theorem cut_of_above (all : ∀ x ∈ keys, order.cmp vkey x < 0) :
    cut order vkey keys = ⟨[], none, keys⟩ := by
  simp only [cut, Cut.mk.injEq, filter_eq_nil_iff, filter_eq_self, List.find?_eq_none,
    decide_eq_true_iff]
  exact ⟨fun x mem => (all x mem).not_gt, fun x mem => (all x mem).ne, all⟩

theorem cut_of_below (all : ∀ x ∈ keys, 0 < order.cmp vkey x) :
    cut order vkey keys = ⟨keys, none, []⟩ := by
  simp only [cut, Cut.mk.injEq, filter_eq_nil_iff, filter_eq_self, List.find?_eq_none,
    decide_eq_true_iff]
  exact ⟨all, fun x mem => (all x mem).ne', fun x mem => (all x mem).not_gt⟩

/-- A list is cut as a search goes down in a tree. -/
theorem Ascending.cut_node (ascending : Ascending order (before ++ key :: behind)) (vkey : Key) :
    Ascending order before /\ Ascending order behind /\ cut order vkey (before ++ key :: behind) =
      if order.cmp vkey key = 0 then ⟨before, some key, behind⟩
      else if order.cmp vkey key < 0 then
        { cut order vkey before with above := (cut order vkey before).above ++ key :: behind }
      else { cut order vkey behind with below := before ++ key :: (cut order vkey behind).below } := by
  rcases pairwise_append.mp ascending with ⟨left, right, across⟩
  rcases pairwise_cons.mp right with ⟨above, rest⟩
  have greater (le : order.cmp vkey key <= 0) := @cut_of_above _ order vkey behind
    fun x mem => less_of_le_of_less le (above x mem)
  have smaller (ge : 0 <= order.cmp vkey key) := @cut_of_below _ order vkey before
    fun x mem => (order.flip x vkey).mp (less_of_less_of_le
      (across x mem key mem_cons_self) (order.le_of_compare_nonneg ge))
  refine ⟨left, rest, ?_⟩
  rw [<- singleton_append, cut_append, cut_append]
  split_ifs with equal less
  · rw [greater equal.le, smaller equal.ge]
    simp [cut, equal]
  · rw [greater less.le]
    simp [cut, equal, less, less.le]
  · rw [smaller (not_lt.mp less)]
    simp [cut, equal, less, lt_of_le_of_ne' (not_lt.mp less) equal]

theorem Ascending.performOnList (ascending : Ascending order keys) (call : Call Key) :
    Ascending order (call.performOnList order keys) := by
  have placed (vkey : Key) :
      Ascending order ((cut order vkey keys).below ++ vkey :: (cut order vkey keys).above) := by
    refine pairwise_append.mpr ⟨ascending.filter _, pairwise_cons.mpr
      ⟨fun y above => of_decide_eq_true (mem_filter.mp above).2, ascending.filter _⟩, ?_⟩
    intro x below y mem
    have less := (order.flip x vkey).mpr (of_decide_eq_true (mem_filter.mp below).2)
    rcases mem_cons.mp mem with rfl | above
    · exact less
    · exact less_of_less_of_le less (le_of_lt (of_decide_eq_true (mem_filter.mp above).2))
  cases call with
  | tdelete vkey => exact (placed vkey).sublist ((sublist_cons_self _ _).append_left _)
  | tsearch vkey memory =>
    rw [Call.performOnList]
    split_ifs
    · exact ascending
    · exact placed vkey

end

/-! ## Trees and lists -/

theorem takeFirst_keys (llink : Node Key) (key : Key) (rlink : Node Key) :
    (llink.takeFirst key rlink).1 :: (llink.takeFirst key rlink).2.keys =
      llink.keys ++ key :: rlink.keys := by
  induction llink generalizing key rlink with
  | null => rfl
  | node llink first behind left _ =>
    rw [Node.keys, <- left]
    rfl

theorem replacement_keys (llink rlink : Node Key) :
    (llink.replacement rlink).keys = llink.keys ++ rlink.keys := by
  cases llink with
  | null => rfl
  | node before key behind =>
    cases rlink with
    | null => exact (append_nil _).symm
    | node first next last => exact congrArg (_ ++ ·) (takeFirst_keys first next last)

section

variable {order} {tree : Node Key} (ascending : Ascending order tree.keys)
include ascending

theorem tfind_eq : tree.tfind order vkey = (cut order vkey tree.keys).equal := by
  induction tree with
  | null => rfl
  | node llink key rlink left right =>
    rcases ascending.cut_node vkey with ⟨before, behind, parts⟩
    rw [Node.tfind, left before, right behind, Node.keys, parts]
    split_ifs <;> rfl

theorem tsearch_eq (memory : Bool) : (tree.tsearch order vkey memory).1 =
      (cut order vkey tree.keys).equal.or (if memory then some vkey else none) /\
    (tree.tsearch order vkey memory).2.keys =
      (Call.tsearch vkey memory).performOnList order tree.keys := by
  induction tree with
  | null => cases memory <;> exact ⟨rfl, rfl⟩
  | node llink key rlink left right =>
    rcases ascending.cut_node vkey with ⟨before, behind, parts⟩
    rcases left before with ⟨leftFound, leftKeys⟩
    rcases right behind with ⟨rightFound, rightKeys⟩
    rw [Call.performOnList] at leftKeys rightKeys ⊢
    rw [Node.tsearch, Node.keys, parts]
    by_cases equal : order.cmp vkey key = 0
    · simp [equal, Node.keys]
    · by_cases less : order.cmp vkey key < 0
      · simp only [equal, less, if_true, if_false, leftFound, Node.keys, leftKeys, true_and]
        split_ifs <;> simp
      · simp only [equal, less, if_false, rightFound, Node.keys, rightKeys, true_and]
        split_ifs <;> simp

theorem tdelete_eq (parent : Option Key) :
    (tree.tdelete order vkey parent).1.isSome = (cut order vkey tree.keys).equal.isSome /\
    (tree.tdelete order vkey parent).2.keys =
      (Call.tdelete vkey).performOnList order tree.keys := by
  induction tree generalizing parent with
  | null => exact ⟨rfl, rfl⟩
  | node llink key rlink left right =>
    rcases ascending.cut_node vkey with ⟨before, behind, parts⟩
    rcases left before (some key) with ⟨leftFound, leftKeys⟩
    rcases right behind (some key) with ⟨rightFound, rightKeys⟩
    rw [Call.performOnList] at leftKeys rightKeys ⊢
    rw [Node.tdelete, Node.keys, parts]
    dsimp only
    split_ifs with equal less
    · exact ⟨rfl, replacement_keys llink rlink⟩
    · exact ⟨leftFound, by simp [Node.keys, leftKeys]⟩
    · exact ⟨rightFound, by simp [Node.keys, rightKeys]⟩

end

theorem keys_foldl (calls : List (Call Key)) {tree : Node Key}
    (ascending : Ascending order tree.keys) :
    (calls.foldl (Call.perform order) tree).keys =
        calls.foldl (Call.performOnList order) tree.keys /\
      Ascending order (calls.foldl (Call.perform order) tree).keys := by
  induction calls generalizing tree with
  | nil => exact ⟨rfl, ascending⟩
  | cons call calls ih =>
    have step : (call.perform order tree).keys = call.performOnList order tree.keys := by
      cases call with
      | tsearch vkey memory => exact (tsearch_eq vkey ascending memory).2
      | tdelete vkey => exact (tdelete_eq vkey ascending none).2
    rw [foldl_cons, foldl_cons, <- step]
    exact ih (step ▸ ascending.performOnList call)

/-- From the empty tree on, all functions act as on a list in ascending order. -/
theorem tree_refines_list (calls : List (Call Key)) :
    let tree := calls.foldl (Call.perform order) Node.null
    let found := (cut order vkey tree.keys).equal
    tree.keys = calls.foldl (Call.performOnList order) [] /\ Ascending order tree.keys /\
      tree.tfind order vkey = found /\
      (∀ memory, (tree.tsearch order vkey memory).1 =
        found.or (if memory then some vkey else none)) /\
      (tree.tdelete order vkey none).1.isSome = found.isSome := by
  have start : Ascending order Node.null.keys := List.Pairwise.nil
  rcases keys_foldl order calls start with ⟨same, ascending⟩
  exact ⟨same, ascending, tfind_eq vkey ascending, fun memory => (tsearch_eq vkey ascending memory).1,
    (tdelete_eq vkey ascending none).1⟩

/-! ## Walks -/

theorem trecurse_keys (level : Nat) (tree : Node Key) :
    ((tree.trecurse level).filter fun call => call.2.1 = .postorder \/ call.2.1 = .leaf).map (·.1) =
      tree.keys := by
  fun_induction Node.trecurse level tree with
  | case1 | case2 => rfl
  | case3 => simp_all [Node.keys]

theorem tdestroy_perm (tree : Node Key) : tree.tdestroy.Perm tree.keys := by
  induction tree with
  | null => exact List.Perm.nil
  | node llink key rlink left right =>
    have together := (left.append right).append_right [key]
    rw [Node.tdestroy, Node.keys]
    refine together.trans ?_
    rw [append_assoc]
    exact (perm_append_singleton key _).append_left _

/-- The visits that are the second or the only one of a node show the keys of the tree, all
of them and in ascending order, and `tdestroy` frees each of them once. -/
theorem twalk_ascending (calls : List (Call Key)) :
    let tree := calls.foldl (Call.perform order) Node.null
    let shown := ((tree.trecurse 0).filter fun call =>
      call.2.1 = .postorder \/ call.2.1 = .leaf).map (·.1)
    shown = tree.keys /\ tree.keys = calls.foldl (Call.performOnList order) [] /\
      Ascending order shown /\ tree.tdestroy.Perm tree.keys := by
  intro tree shown
  have start : Ascending order Node.null.keys := List.Pairwise.nil
  rcases keys_foldl order calls start with ⟨same, ascending⟩
  have all : shown = tree.keys := trecurse_keys 0 tree
  exact ⟨all, same, all ▸ ascending, tdestroy_perm tree⟩

end Clib4.Search
