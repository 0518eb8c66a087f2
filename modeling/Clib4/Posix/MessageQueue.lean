import Clib4.Foundation.Chain
import Clib4.Foundation.Run
import Mathlib.Data.List.Perm.Subperm
import Mathlib.Tactic.Common
import Mathlib.Algebra.Ring.Int.Defs
import Mathlib.Algebra.Ring.Nat

namespace Clib4.Posix

open Foundation List

/-!
# Message queues

`sysv_msgsnd.c` and `sysv_msgrcv.c`: a queue is a singly linked list of
messages in memory, with a pointer to its first and its last message and two
counters.  A call that has to wait gives the queue up and tries again later;
each try is one step.

The wait lists, the mode bits and the process numbers have no counterpart, and
neither has a queue that was removed.
-/

namespace MessageQueue

/-- What is sent.  `number` tells messages apart that are otherwise alike; it
is history, and the code does not know it. -/
structure Message where
  type : Int
  text : List UInt8
  number : Nat
  deriving DecidableEq, Repr

/-- `struct Msg`; `Size` is the length of the text. -/
structure Node where
  next : Option Nat
  msg : Message

def Message.size (msg : Message) : Nat :=
  msg.text.length

/--
The part of `struct msqid_ds` the two calls use, and the memory behind it.
`cells` are the nodes that the links from `msg_first` lead through; `msg_last`
is the last of them.  Addresses are 32 bits wide and not zero.
-/
structure Queue where
  memory : Nat -> Node
  allocated : Nat -> Bool
  first : Option Nat
  last : Option Nat
  cbytes : Nat
  qnum : Nat
  qbytes : Nat
  cells : List Nat
  chain : IsChain (fun cell => (memory cell).next) first cells
  distinct : cells.Nodup
  ending : last = cells.getLast?
  owned : ∀ cell ∈ cells, allocated cell /\ 0 < cell /\ cell < 2 ^ 32

/-- `MSG_NOERROR` and `IPC_NOERROR`. -/
def noError : UInt32 := 0x1000

def noWait : UInt32 := 0x800

/-- `flags & mask`. -/
def isSet (flags mask : UInt32) : Bool :=
  decide (flags &&& mask ≠ 0)

/-- The errors of the two calls. -/
inductive Errno
  | ENOMEM | EINVAL | EAGAIN | E2BIG | ENOMSG
  deriving DecidableEq, Repr

/-- How a try of `_msgsnd` ends. -/
inductive Sent
  | success
  | failure (errno : Errno)
  | suspended
  deriving DecidableEq, Repr

/-- How a try of `_msgrcv` ends: with a message of which as much as fits is
copied, with an error, or suspended, with `mtype` as it is for the next try. -/
inductive Received
  | success (msg : Message) (copied : List UInt8)
  | failure (errno : Errno)
  | suspended (mtype : Int)
  deriving DecidableEq, Repr

def construct : Queue where
  memory := fun _ => ⟨none, ⟨0, [], 0⟩⟩
  allocated := fun _ => false
  first := none
  last := none
  cbytes := 0
  qnum := 0
  qbytes := 4096
  cells := []
  chain := rfl
  distinct := nodup_nil
  ending := rfl
  owned := by simp

namespace Queue

def messages (queue : Queue) : List Message :=
  queue.cells.map fun cell => (queue.memory cell).msg

theorem next_update (memory : Nat -> Node) {cell : Nat} {node : Node} :
    (fun other => (Function.update memory cell node other).next) =
      Function.update (fun other => (memory other).next) cell node.next :=
  Function.comp_update Node.next memory cell node

/-- `lm->Next = m`, or `prev->Next = m->Next`. -/
def relink (memory : Nat -> Node) (cell : Nat) (next : Option Nat) : Nat -> Node :=
  Function.update memory cell { memory cell with next := next }

theorem relink_next (memory : Nat -> Node) {cell : Nat} {next : Option Nat} :
    (fun other => (relink memory cell next other).next) =
      Function.update (fun other => (memory other).next) cell next :=
  next_update memory

@[simp] theorem relink_message (memory : Nat -> Node) (cell : Nat) (next : Option Nat)
    (other : Nat) : (relink memory cell next other).msg = (memory other).msg := by
  rw [relink, Function.update_apply]
  split_ifs with same
  · rw [same]
  · rfl

/-- The memory of a node that `malloc` has just returned. -/
structure Fresh (queue : Queue) (cell : Nat) : Prop where
  free : queue.allocated cell = false
  positive : 0 < cell
  small : cell < 2 ^ 32

instance (queue : Queue) (cell : Nat) : Decidable (queue.Fresh cell) :=
  decidable_of_iff (queue.allocated cell = false /\ 0 < cell /\ cell < 2 ^ 32)
    ⟨fun all => ⟨all.1, all.2.1, all.2.2⟩, fun fresh => ⟨fresh.free, fresh.positive, fresh.small⟩⟩

variable {queue : Queue} {cell : Nat}

theorem Fresh.not_mem (fresh : queue.Fresh cell) : cell ∉ queue.cells := by
  intro mem
  have taken := (queue.owned cell mem).1
  rw [fresh.free] at taken
  cases taken

def add (queue : Queue) (cell : Nat) (fresh : queue.Fresh cell) (msg : Message) : Queue :=
  let memory := Function.update queue.memory cell ⟨none, msg⟩
  { memory :=
      match queue.last with
      | some last => relink memory last (some cell)
      | none => memory
    allocated := Function.update queue.allocated cell true
    first := if queue.last.isSome then queue.first else some cell
    last := some cell
    cbytes := (queue.cbytes + msg.size) % 2 ^ 32
    qnum := (queue.qnum + 1) % 2 ^ 32
    qbytes := queue.qbytes
    cells := queue.cells ++ [cell]
    chain := by
      have chain := queue.chain
      have ending := queue.ending
      cases last : queue.last with
      | none =>
        rw [last] at ending
        have empty : queue.cells = [] := List.getLast?_eq_none_iff.mp ending.symm
        rw [empty]
        refine ⟨rfl, ?_⟩
        simp only [memory, Function.update_self]
        rfl
      | some last =>
        rw [last] at ending
        simp only [relink_next, memory, next_update]
        exact chain.snoc ending.symm queue.distinct fresh.not_mem
    distinct := (perm_append_singleton cell _).nodup_iff.mpr
      (nodup_cons.mpr ⟨fresh.not_mem, queue.distinct⟩)
    ending := by simp
    owned := by
      intro other mem
      by_cases same : other = cell
      · subst same
        exact ⟨Function.update_self .., fresh.positive, fresh.small⟩
      · rw [Function.update_of_ne same]
        exact queue.owned other (by simpa [same] using mem) }

def Follows (queue : Queue) (prev : Option Nat) (cell : Nat) : Prop :=
  ∃ before behind, queue.cells = before ++ cell :: behind /\ prev = before.getLast?

theorem erase_cell {before behind : List Nat} (cells : queue.cells = before ++ cell :: behind) :
    queue.cells.erase cell = before ++ behind := by
  have distinct := queue.distinct
  rw [cells] at distinct ⊢
  have fresh : cell ∉ before := by
    intro mem
    exact (nodup_append.mp distinct).2.2 cell mem cell (by simp) rfl
  rw [erase_append_right _ fresh, erase_cons_head]

/-- The node before the one that is taken out points past it. -/
def bypass (queue : Queue) (prev : Option Nat) (cell : Nat) : Nat -> Node :=
  match prev with
  | some prev => relink queue.memory prev (queue.memory cell).next
  | none => queue.memory

@[simp] theorem bypass_message (queue : Queue) (prev : Option Nat) (cell other : Nat) :
    (queue.bypass prev cell other).msg = (queue.memory other).msg := by
  cases prev with
  | none => rfl
  | some prev => exact relink_message queue.memory prev _ other

variable {prev : Option Nat}

theorem chain_unlink (follows : queue.Follows prev cell) :
    IsChain (fun other => (queue.bypass prev cell other).next)
      (if prev.isSome then queue.first else (queue.memory cell).next)
      (queue.cells.erase cell) := by
  obtain ⟨before, behind, cells, previousEq⟩ := follows
  have chain := queue.chain
  have distinct := queue.distinct
  rw [erase_cell cells]
  rw [cells] at chain distinct
  cases prev with
  | none =>
    have empty := List.getLast?_eq_none_iff.mp previousEq.symm
    subst empty
    exact chain.2
  | some prev =>
    obtain ⟨front, rfl⟩ := List.getLast?_eq_some_iff.mp previousEq.symm
    simp only [bypass, relink_next, Option.isSome_some, if_true]
    simp only [append_assoc, singleton_append] at chain distinct ⊢
    exact chain.unlink distinct

theorem ending_unlink (follows : queue.Follows prev cell) :
    (if queue.last = some cell then prev else queue.last) =
      (queue.cells.erase cell).getLast? := by
  obtain ⟨before, behind, cells, previousEq⟩ := follows
  have distinct := queue.distinct
  rw [erase_cell cells, queue.ending]
  rw [cells] at distinct ⊢
  cases behind with
  | nil => simp [previousEq]
  | cons next rest =>
    have last : (before ++ cell :: next :: rest).getLast? = (next :: rest).getLast? := by
      rw [List.getLast?_append_cons, List.getLast?_cons_cons]
    have fresh := (nodup_cons.mp (nodup_append.mp distinct).2.1).1
    have other : (next :: rest).getLast? ≠ some cell :=
      fun same => fresh (mem_of_getLast? same)
    rw [last, if_neg other, List.getLast?_append_cons]

/-- Take a node out of the list.  The counters stay as they are. -/
def unlink (queue : Queue) (prev : Option Nat) (cell : Nat)
    (follows : queue.Follows prev cell) : Queue :=
  { queue with
    memory := queue.bypass prev cell
    first := if prev.isSome then queue.first else (queue.memory cell).next
    last := if queue.last = some cell then prev else queue.last
    cells := queue.cells.erase cell
    chain := chain_unlink follows
    distinct := queue.distinct.erase cell
    ending := ending_unlink follows
    owned := fun other mem => queue.owned other (mem_of_mem_erase mem) }

def discharge (queue : Queue) (cell : Nat) (msg : Message) (out : cell ∉ queue.cells) :
    Queue :=
  { queue with
    cbytes := (queue.cbytes + (2 ^ 32 - msg.size)) % 2 ^ 32
    qnum := (queue.qnum + (2 ^ 32 - 1)) % 2 ^ 32
    allocated := Function.update queue.allocated cell false
    owned := by
      intro other mem
      obtain ⟨taken, positive, small⟩ := queue.owned other mem
      have differ : other ≠ cell := by
        rintro rfl
        exact out mem
      exact ⟨by rw [Function.update_of_ne differ]; exact taken, positive, small⟩ }

/-! ## The search for a message -/

/-- The loops of `_msgrcv`: walk on until a node is wanted, and remember the one
before it; `none` if the rounds do not suffice. -/
def search (next : Nat -> Option Nat) (wanted : Nat -> Bool) :
    Nat -> Option Nat -> Option Nat -> Option (Option Nat × Option Nat)
  | 0, _, _ => none
  | fuel + 1, prev, cell =>
    match cell with
    | none => some (prev, none)
    | some cell =>
      if wanted cell then some (prev, some cell)
      else search next wanted fuel (some cell) (next cell)

theorem search_chain {next : Nat -> Option Nat} (wanted : Nat -> Bool) {cells : List Nat}
    (fuel : Nat) (prev start : Option Nat) (enough : cells.length < fuel)
    (chain : IsChain next start cells) :
    (∃ before cell behind, cells = before ++ cell :: behind /\
      (∀ other ∈ before, wanted other = false) /\ wanted cell /\
      search next wanted fuel prev start = some (before.getLast?.or prev, some cell)) \/
    ((∀ other ∈ cells, wanted other = false) /\
      ∃ last, search next wanted fuel prev start = some (last, none)) := by
  induction cells generalizing fuel prev start with
  | nil =>
    obtain ⟨rounds, rfl⟩ := Nat.exists_eq_succ_of_ne_zero (Nat.ne_of_gt enough)
    have nothing := chain
    subst nothing
    exact Or.inr ⟨by simp, prev, rfl⟩
  | cons cell cells ih =>
    obtain ⟨rounds, rfl⟩ : ∃ rounds, fuel = rounds + 1 := ⟨fuel - 1, by omega⟩
    obtain ⟨rfl, rest⟩ := chain
    by_cases found : wanted cell
    · refine Or.inl ⟨[], cell, cells, rfl, by simp, found, ?_⟩
      rw [search, if_pos found]
      rfl
    · have miss := Bool.eq_false_iff.mpr found
      simp only [search, if_neg found]
      rcases ih rounds (some cell) (next cell) (by simpa using enough) rest with
        ⟨before, hit, behind, parts, unwanted, wantedHit, result⟩ | ⟨unwanted, last, result⟩
      · refine Or.inl ⟨cell :: before, hit, behind, by rw [parts]; rfl,
          forall_mem_cons.mpr ⟨miss, unwanted⟩, wantedHit, ?_⟩
        rw [result, List.getLast?_cons]
        cases before.getLast? <;> rfl
      · exact Or.inr ⟨forall_mem_cons.mpr ⟨miss, unwanted⟩, last, result⟩

/-- `mtype = -mtype` in 32 bits. -/
def negate (mtype : Int) : Int :=
  if mtype = -2 ^ 31 then mtype else -mtype

/-- The message asked for: the first one, the first of a type, or the first of
a type up to a bound. -/
def wants (mtype : Int) (msg : Message) : Bool :=
  if 0 < mtype then decide (msg.type = mtype)
  else if mtype < 0 then decide (msg.type <= negate mtype)
  else true

/-- The walk of `_msgrcv`, with rounds enough for every node and the end. -/
def select (queue : Queue) (mtype : Int) : Option (Option Nat × Option Nat) :=
  search (fun cell => (queue.memory cell).next)
    (fun cell => wants mtype (queue.memory cell).msg) (queue.cells.length + 1) none
    queue.first

theorem select_cases (queue : Queue) (mtype : Int) :
    (∃ before cell behind, queue.cells = before ++ cell :: behind /\
      (∀ other ∈ before, wants mtype (queue.memory other).msg = false) /\
      wants mtype (queue.memory cell).msg /\
      queue.select mtype = some (before.getLast?, some cell)) \/
    ((∀ msg ∈ queue.messages, wants mtype msg = false) /\
      ∃ last, queue.select mtype = some (last, none)) := by
  rcases search_chain (fun cell => wants mtype (queue.memory cell).msg)
    (queue.cells.length + 1) none queue.first (Nat.lt_succ_self _) queue.chain with
    ⟨before, cell, behind, parts, unwanted, wanted, result⟩ | ⟨unwanted, last, result⟩
  · rw [Option.or_none] at result
    exact Or.inl ⟨before, cell, behind, parts, unwanted, wanted, result⟩
  · exact Or.inr ⟨forall_mem_map.mpr unwanted, last, result⟩

theorem follows_of_select {mtype : Int}
    (selected : queue.select mtype = some (prev, some cell)) :
    queue.Follows prev cell := by
  rcases queue.select_cases mtype with
    ⟨before, found, behind, parts, -, -, result⟩ | ⟨-, last, result⟩
  · rw [result] at selected
    cases selected
    exact ⟨before, behind, parts, rfl⟩
  · rw [result] at selected
    cases selected

theorem not_mem_unlink {follows : queue.Follows prev cell} :
    cell ∉ (queue.unlink prev cell follows).cells :=
  queue.distinct.not_mem_erase

/-! ## The calls -/

/-- A try of `_msgsnd`; `cell` is the node `malloc` returns, if it is asked. -/
def msgsnd (queue : Queue) (msg : Message) (flags : UInt32)
    (cell : Option { cell : Nat // queue.Fresh cell }) : Sent × Queue :=
  let bleft := (queue.qbytes + (2 ^ 32 - queue.cbytes)) % 2 ^ 32
  if msg.size <= bleft then
    match cell with
    | some cell => (.success, queue.add cell.1 cell.2 msg)
    | none => (.failure .ENOMEM, queue)
  else if queue.qbytes < msg.size then
    if isSet flags noError then (.success, queue) else (.failure .EINVAL, queue)
  else if isSet flags noWait then (.failure .EAGAIN, queue)
  else (.suspended, queue)

/-- A try of `_msgrcv`.  The message is taken out of the list before its size
is looked at. -/
def msgrcv (queue : Queue) (mlen : Nat) (mtype : Int) (flags : UInt32) :
    Option (Received × Queue) :=
  match selected : queue.select mtype with
  | none => none
  | some (prev, some cell) =>
    let msg := (queue.memory cell).msg
    let follows := follows_of_select selected
    let unlinked := queue.unlink prev cell follows
    if msg.size <= mlen \/ isSet flags noError then
      some (.success msg (msg.text.take mlen),
        unlinked.discharge cell msg (not_mem_unlink))
    else some (.failure .E2BIG, unlinked)
  | some (_, none) =>
    if isSet flags noWait then some (.failure .ENOMSG, queue)
    else some (.suspended (if mtype < 0 then negate mtype else mtype), queue)

/-! ## What a try does -/

/-- Addresses that differ, and are neither null nor wider than 32 bits, are
fewer than a counter of 32 bits can count. -/
theorem length_cells_lt (queue : Queue) : queue.cells.length < 2 ^ 32 := by
  have inside : queue.cells ⊆ (List.range (2 ^ 32)).erase 0 := by
    intro cell mem
    obtain ⟨-, positive, small⟩ := queue.owned cell mem
    exact (mem_erase_of_ne (Nat.ne_of_gt positive)).mpr (mem_range.mpr small)
  have bound := (queue.distinct.subperm inside).length_le
  rw [length_erase_of_mem (mem_range.mpr (Nat.two_pow_pos 32)), length_range]
    at bound
  exact Nat.lt_of_le_of_lt bound (Nat.sub_lt (Nat.two_pow_pos 32) Nat.one_pos)

theorem length_messages {queue : Queue} : queue.messages.length = queue.cells.length :=
  length_map _

theorem messages_add {queue : Queue} {cell : Nat} {fresh : queue.Fresh cell} {msg : Message} :
    (queue.add cell fresh msg).messages = queue.messages ++ [msg] := by
  have content : ∀ other, ((queue.add cell fresh msg).memory other).msg =
      if other = cell then msg else (queue.memory other).msg := by
    intro other
    have written : (Function.update queue.memory cell ⟨none, msg⟩ other).msg =
        if other = cell then msg else (queue.memory other).msg := by
      rw [Function.update_apply]
      split_ifs <;> rfl
    simp only [add]
    cases queue.last with
    | none => exact written
    | some last => exact (relink_message ..).trans written
  have old : queue.cells.map (fun other => ((queue.add cell fresh msg).memory other).msg) =
      queue.messages := by
    refine map_congr_left ?_
    intro other mem
    rw [content, if_neg]
    rintro rfl
    exact fresh.not_mem mem
  change (queue.cells ++ [cell]).map _ = _
  rw [map_append, old, map_singleton, content, if_pos rfl]

theorem messages_unlink {queue : Queue} {before behind : List Nat}
    {follows : queue.Follows prev cell} (cells : queue.cells = before ++ cell :: behind) :
    (queue.unlink prev cell follows).messages =
      (before ++ behind).map fun other => (queue.memory other).msg := by
  change (queue.cells.erase cell).map (fun other => (queue.bypass prev cell other).msg) = _
  rw [erase_cell cells]
  exact map_congr_left fun other _ => queue.bypass_message prev cell other

theorem msgsnd_cases (queue : Queue) (msg : Message) (flags : UInt32)
    (cell : Option { cell : Nat // queue.Fresh cell }) (room : queue.cbytes <= queue.qbytes)
    (narrow : queue.qbytes < 2 ^ 32) :
    (∃ node fresh, queue.cbytes + msg.size <= queue.qbytes /\
      queue.msgsnd msg flags cell = (.success, queue.add node fresh msg)) \/
    (queue.qbytes < msg.size /\ isSet flags noError /\
      queue.msgsnd msg flags cell = (.success, queue)) \/
    (¬ (queue.qbytes < msg.size /\ isSet flags noError) /\
      ∃ sent, sent ≠ .success /\ queue.msgsnd msg flags cell = (sent, queue)) := by
  have left : (queue.qbytes + (2 ^ 32 - queue.cbytes)) % 2 ^ 32 = queue.qbytes - queue.cbytes := by
    have sum : queue.qbytes + (2 ^ 32 - queue.cbytes) = queue.qbytes - queue.cbytes + 2 ^ 32 := by
      omega
    rw [sum, Nat.add_mod_right, Nat.mod_eq_of_lt (by omega)]
  unfold msgsnd
  dsimp only
  split_ifs with fits large silent
  · cases cell with
    | none => exact Or.inr (Or.inr ⟨by omega, _, by simp, rfl⟩)
    | some cell => exact Or.inl ⟨cell.1, cell.2, by omega, rfl⟩
  · exact Or.inr (Or.inl ⟨large, silent, rfl⟩)
  · exact Or.inr (Or.inr ⟨fun both => silent both.2, _, by simp, rfl⟩)
  all_goals exact Or.inr (Or.inr ⟨fun both => large both.1, _, by simp, rfl⟩)

/-- The messages that may be received for `mtype`: the first one wanted. -/
def choice (queue : Queue) (mtype : Int) : Option Message :=
  queue.messages.find? (wants mtype)

/-- A receive that finds a message takes it out of the list; the counters
follow only if it fits. -/
structure Takes (queue after : Queue) (msg : Message) : Prop where
  parts : ∃ before behind, queue.messages = before ++ msg :: behind /\
    after.messages = before ++ behind
  qbytes : after.qbytes = queue.qbytes

theorem msgrcv_cases (queue : Queue) (mlen : Nat) (mtype : Int) (flags : UInt32) :
    (∃ msg after, queue.choice mtype = some msg /\ queue.Takes after msg /\
      (msg.size <= mlen \/ isSet flags noError) /\
      after.cbytes = (queue.cbytes + (2 ^ 32 - msg.size)) % 2 ^ 32 /\
      after.qnum = (queue.qnum + (2 ^ 32 - 1)) % 2 ^ 32 /\
      queue.msgrcv mlen mtype flags = some (.success msg (msg.text.take mlen), after)) \/
    (∃ msg after, queue.choice mtype = some msg /\ queue.Takes after msg /\
      ¬ (msg.size <= mlen \/ isSet flags noError) /\
      queue.msgrcv mlen mtype flags = some (.failure .E2BIG, after)) \/
    (queue.choice mtype = none /\ ∃ received,
      (∀ msg copied, received ≠ .success msg copied) /\
      queue.msgrcv mlen mtype flags = some (received, queue)) := by
  rcases queue.select_cases mtype with
    ⟨before, cell, behind, cells, unwanted, wanted, result⟩ | ⟨unwanted, last, result⟩
  · have follows : queue.Follows before.getLast? cell := ⟨before, behind, cells, rfl⟩
    have parts : queue.messages =
        before.map (fun other => (queue.memory other).msg) ++ (queue.memory cell).msg ::
          behind.map fun other => (queue.memory other).msg := by
      rw [messages, cells, map_append, map_cons]
    have chosen := List.find?_eq_some_iff_append.mpr ⟨wanted, _, _, parts, forall_mem_map.mpr
      (by simpa using unwanted)⟩
    have takes : queue.Takes (queue.unlink before.getLast? cell follows)
        (queue.memory cell).msg := by
      refine ⟨⟨_, _, parts, ?_⟩, rfl⟩
      rw [messages_unlink cells, map_append]
    have ran : queue.msgrcv mlen mtype flags =
        if (queue.memory cell).msg.size <= mlen \/ isSet flags noError then
          some (.success (queue.memory cell).msg ((queue.memory cell).msg.text.take mlen),
            (queue.unlink before.getLast? cell follows).discharge cell
              (queue.memory cell).msg (not_mem_unlink))
        else some (.failure .E2BIG, queue.unlink before.getLast? cell follows) := by
      unfold msgrcv
      split <;> rename_i selected <;> rw [result] at selected <;> cases selected
      rfl
    by_cases fits : (queue.memory cell).msg.size <= mlen \/ isSet flags noError
    · rw [if_pos fits] at ran
      have counted : queue.Takes ((queue.unlink before.getLast? cell follows).discharge cell
          (queue.memory cell).msg (not_mem_unlink)) (queue.memory cell).msg :=
        ⟨takes.parts, rfl⟩
      exact Or.inl ⟨_, _, chosen, counted, fits, rfl, rfl, ran⟩
    · rw [if_neg fits] at ran
      exact Or.inr (Or.inl ⟨_, _, chosen, takes, fits, ran⟩)
  · have nothing : queue.choice mtype = none := by
      rw [choice, List.find?_eq_none]
      intro msg mem
      simp [unwanted msg mem]
    refine Or.inr (Or.inr ⟨nothing, ?_⟩)
    unfold msgrcv
    split <;> rename_i selected <;> rw [result] at selected <;> cases selected
    split_ifs <;> exact ⟨_, by simp, rfl⟩

end Queue

/-! ## A queue and its history -/

/-- The queue, the messages whose send was reported as done and that no receive
has returned yet, those that were returned, and how many sends were done. -/
structure System where
  queue : Queue
  outstanding : List Message
  delivered : List Message
  sent : Nat

/-- One atomic access to the queue. -/
inductive Event
  | send (type : Int) (text : List UInt8) (flags : UInt32) (cell : Option Nat)
  | receive (mlen : Nat) (mtype : Int) (flags : UInt32)

namespace System

def start : System :=
  ⟨construct, [], [], 0⟩

/-- What `malloc` may return: nothing, or memory that is not in use. -/
def grant (queue : Queue) : Option Nat -> Option (Option { cell : Nat // queue.Fresh cell })
  | none => some none
  | some cell => if fresh : queue.Fresh cell then some (some ⟨cell, fresh⟩) else none

def afterSend (sys : System) (msg : Message) : Sent × Queue -> System
  | (.success, queue) =>
    { sys with
      queue := queue
      outstanding := sys.outstanding ++ [msg]
      sent := sys.sent + 1 }
  | (_, queue) => { sys with queue := queue }

def afterReceive (sys : System) : Received × Queue -> System
  | (.success msg _, queue) =>
    { sys with
      queue := queue
      outstanding := sys.outstanding.erase msg
      delivered := sys.delivered ++ [msg] }
  | (_, queue) => { sys with queue := queue }

def step (sys : System) : Event -> Option System
  | .send type text flags cell =>
    (grant sys.queue cell).map fun cell =>
      let msg : Message := ⟨type, text, sys.sent⟩
      sys.afterSend msg (sys.queue.msgsnd msg flags cell)
  | .receive mlen mtype flags =>
    (sys.queue.msgrcv mlen mtype flags).map sys.afterReceive

/-- The list from `msg_first` is what was sent and not received, in order, with
`msg_last` and the counters to match; and no message was delivered twice. -/
structure Exact (sys : System) : Prop where
  linked : IsChain (fun cell => (sys.queue.memory cell).next) sys.queue.first
    sys.queue.cells
  listed : sys.queue.messages = sys.outstanding
  last : sys.queue.last = sys.queue.cells.getLast?
  qnum : sys.queue.qnum = sys.outstanding.length
  cbytes : sys.queue.cbytes = (sys.outstanding.map Message.size).sum
  once : (sys.delivered.map Message.number).Nodup

/-- What carries `Exact` from step to step: the limit is kept, and the numbers
of the messages are those given out so far, each one once. -/
structure Consistent (sys : System) : Prop extends Exact sys where
  limit : sys.queue.qbytes = 4096
  room : sys.queue.cbytes <= 4096
  numbered : ((sys.outstanding ++ sys.delivered).map Message.number).Nodup
  given : ∀ msg ∈ sys.outstanding ++ sys.delivered, msg.number < sys.sent

/-- `malloc` returns only what is free. -/
def Possible (sys : System) : Event -> Prop
  | .send _ _ _ (some cell) => sys.queue.Fresh cell
  | _ => True

/-- The tries that keep the account: no message larger than the queue is sent
with `MSG_NOERROR`, and the message a receive takes fits into its buffer, or
may be cut off. -/
def Safe (sys : System) : Event -> Prop
  | .send _ text flags _ => ¬ (sys.queue.qbytes < text.length /\ isSet flags noError)
  | .receive mlen mtype flags => ∀ msg ∈ sys.queue.choice mtype,
      msg.size <= mlen \/ isSet flags noError

/-- A receive that does not return a message leaves the queue as it was. -/
def Quiet (sys : System) : Event -> Prop
  | .send .. => True
  | .receive mlen mtype flags => ∀ received after,
      sys.queue.msgrcv mlen mtype flags = some (received, after) ->
      (∀ msg copied, received ≠ .success msg copied) -> after = sys.queue

theorem start_consistent : start.Consistent where
  linked := rfl
  listed := rfl
  last := rfl
  qnum := rfl
  cbytes := rfl
  once := nodup_nil
  limit := rfl
  room := Nat.zero_le _
  numbered := nodup_nil
  given := by simp [start]

variable {sys : System}

variable {msg : Message}

section

variable (valid : sys.Consistent)
include valid

theorem Consistent.add (number : msg.number = sys.sent) {cell : Nat}
    (fresh : sys.queue.Fresh cell)
    (fits : sys.queue.cbytes + msg.size <= sys.queue.qbytes) :
    (sys.afterSend msg (.success, sys.queue.add cell fresh msg)).Consistent := by
  have listed : (sys.queue.add cell fresh msg).messages = sys.outstanding ++ [msg] := by
    rw [Queue.messages_add, valid.listed]
  have short : sys.outstanding.length + 1 < 2 ^ 32 := by
    have bound := (sys.queue.add cell fresh msg).length_cells_lt
    rw [<- Queue.length_messages, listed, length_append] at bound
    exact bound
  have limit := valid.limit
  have fresher : msg.number ∉ (sys.outstanding ++ sys.delivered).map Message.number := by
    intro mem
    obtain ⟨other, inside, same⟩ := mem_map.mp mem
    have older := valid.given other inside
    rw [same, number] at older
    exact Nat.lt_irrefl _ older
  constructor
  · constructor
    · exact (sys.queue.add cell fresh msg).chain
    · exact listed
    · exact (sys.queue.add cell fresh msg).ending
    · change (sys.queue.qnum + 1) % 2 ^ 32 = (sys.outstanding ++ [msg]).length
      rw [valid.qnum, Nat.mod_eq_of_lt short, length_append]
      rfl
    · change (sys.queue.cbytes + msg.size) % 2 ^ 32 =
        ((sys.outstanding ++ [msg]).map Message.size).sum
      rw [Nat.mod_eq_of_lt (by omega), valid.cbytes, map_append]
      simp
    · exact valid.once
  · exact limit
  · exact Nat.le_trans (Nat.mod_le _ _) (by omega)
  · change ((sys.outstanding ++ [msg] ++ sys.delivered).map Message.number).Nodup
    have shuffled : (sys.outstanding ++ [msg] ++ sys.delivered).Perm
        (msg :: (sys.outstanding ++ sys.delivered)) := by
      rw [append_assoc]
      exact perm_middle
    rw [(shuffled.map Message.number).nodup_iff]
    exact nodup_cons.mpr ⟨fresher, valid.numbered⟩
  · intro other mem
    have split : other ∈ sys.outstanding ++ sys.delivered \/ other = msg := by
      change other ∈ sys.outstanding ++ [msg] ++ sys.delivered at mem
      simp only [mem_append, mem_singleton] at mem ⊢
      tauto
    rcases split with old | rfl
    · exact Nat.lt_succ_of_lt (valid.given other old)
    · rw [number]
      exact Nat.lt_succ_self _

theorem Consistent.take {after : Queue} (takes : sys.queue.Takes after msg)
    (copied : List UInt8)
    (cbytes : after.cbytes = (sys.queue.cbytes + (2 ^ 32 - msg.size)) % 2 ^ 32)
    (qnum : after.qnum = (sys.queue.qnum + (2 ^ 32 - 1)) % 2 ^ 32) :
    (sys.afterReceive (.success msg copied, after)).Consistent := by
  obtain ⟨before, behind, parts, remaining⟩ := takes.parts
  rw [valid.listed] at parts
  have numbered := valid.numbered
  rw [parts] at numbered
  have absent : msg ∉ before := by
    intro mem
    simp only [map_append, map_cons, append_assoc, nodup_append] at numbered
    exact numbered.2.2 _ (mem_map_of_mem mem) msg.number (by simp) rfl
  have erased : sys.outstanding.erase msg = before ++ behind := by
    rw [parts, erase_append_right _ absent, erase_cons_head]
  have total : sys.queue.cbytes = msg.size + ((before ++ behind).map Message.size).sum := by
    rw [valid.cbytes, parts]
    simp only [map_append, map_cons, sum_append, sum_cons]
    omega
  have length : sys.queue.qnum = (before ++ behind).length + 1 := by
    rw [valid.qnum, parts]
    simp only [length_append, length_cons]
    omega
  have short := sys.queue.length_cells_lt
  rw [<- Queue.length_messages, valid.listed, <- valid.qnum] at short
  have room := valid.room
  have fewer : after.cbytes = ((before ++ behind).map Message.size).sum := by
    omega
  have shuffled : (before ++ behind ++ (sys.delivered ++ [msg])).Perm
      (before ++ msg :: behind ++ sys.delivered) := by
    rw [<- append_assoc]
    refine (perm_append_singleton _ _).trans ?_
    rw [append_assoc, append_assoc]
    exact perm_middle.symm
  have unique : ((before ++ behind ++ (sys.delivered ++ [msg])).map
      Message.number).Nodup := by
    rw [(shuffled.map Message.number).nodup_iff]
    exact numbered
  constructor
  · constructor
    · exact after.chain
    · exact remaining.trans erased.symm
    · exact after.ending
    · change after.qnum = (sys.outstanding.erase msg).length
      rw [erased, qnum]
      omega
    · change after.cbytes = ((sys.outstanding.erase msg).map Message.size).sum
      rw [erased]
      exact fewer
    · rw [map_append] at unique
      exact (nodup_append.mp unique).2.1
  · exact takes.qbytes.trans valid.limit
  · change after.cbytes <= 4096
    omega
  · change ((sys.outstanding.erase msg ++ (sys.delivered ++ [msg])).map
      Message.number).Nodup
    rw [erased]
    exact unique
  · intro other mem
    change other ∈ sys.outstanding.erase msg ++ (sys.delivered ++ [msg]) at mem
    rw [erased] at mem
    have inside := shuffled.mem_iff.mp mem
    rw [<- parts] at inside
    exact valid.given other inside

/-! ## One step -/

theorem not_exact_of_takes {after : Queue} (takes : sys.queue.Takes after msg) :
    ¬ Exact { sys with queue := after } := by
  intro account
  obtain ⟨before, behind, parts, remaining⟩ := takes.parts
  have same : before ++ behind = before ++ msg :: behind := by
    rw [<- remaining, <- parts, valid.listed]
    exact account.listed
  have lengths := congrArg List.length same
  simp at lengths

theorem step_send (type : Int) (text : List UInt8) (flags : UInt32) (cell : Option Nat)
    (possible : sys.Possible (.send type text flags cell)) :
    ∃ next, sys.step (.send type text flags cell) = some next /\
      (sys.Safe (.send type text flags cell) ->
        next.Consistent /\ sys.Quiet (.send type text flags cell)) /\
      (¬ sys.Safe (.send type text flags cell) -> ¬ next.Exact) := by
  have granted : ∃ cell', grant sys.queue cell = some cell' := by
    cases cell with
    | none => exact ⟨none, rfl⟩
    | some cell =>
      have fresh := possible
      exact ⟨some ⟨cell, fresh⟩, dif_pos fresh⟩
  obtain ⟨granted, grantedEq⟩ := granted
  have limit := valid.limit
  have stepped : sys.step (.send type text flags cell) =
      some (sys.afterSend ⟨type, text, sys.sent⟩
        (sys.queue.msgsnd ⟨type, text, sys.sent⟩ flags granted)) := by
    rw [step, grantedEq]
    rfl
  refine ⟨_, stepped, ?_⟩
  rcases sys.queue.msgsnd_cases ⟨type, text, sys.sent⟩ flags granted
    (by rw [limit]; exact valid.room) (by rw [limit]; decide) with
    ⟨node, fresh, fits, result⟩ | ⟨large, silent, result⟩ | ⟨safe, sent, failed, result⟩
  · rw [result]
    refine ⟨fun _ => ⟨valid.add rfl fresh fits, trivial⟩, fun spoilt => (spoilt ?_).elim⟩
    rintro ⟨large, -⟩
    change sys.queue.cbytes + text.length <= sys.queue.qbytes at fits
    omega
  · rw [result]
    refine ⟨fun safe => (safe ⟨large, silent⟩).elim, fun _ account => ?_⟩
    have listed := account.listed
    change sys.queue.messages = sys.outstanding ++ _ at listed
    rw [valid.listed] at listed
    have lengths := congrArg List.length listed
    simp at lengths
  · have kept : sys.afterSend ⟨type, text, sys.sent⟩ (sent, sys.queue) = sys := by
      cases sent with
      | success => exact (failed rfl).elim
      | failure errno | suspended => rfl
    rw [result, kept]
    exact ⟨fun _ => ⟨valid, trivial⟩, fun spoilt => (spoilt safe).elim⟩

theorem step_receive (mlen : Nat) (mtype : Int) (flags : UInt32) :
    ∃ next, sys.step (.receive mlen mtype flags) = some next /\
      (sys.Safe (.receive mlen mtype flags) ->
        next.Consistent /\ sys.Quiet (.receive mlen mtype flags)) /\
      (¬ sys.Safe (.receive mlen mtype flags) -> ¬ next.Exact) := by
  rcases sys.queue.msgrcv_cases mlen mtype flags with
    ⟨msg, after, chosen, takes, fits, cbytes, qnum, result⟩ |
    ⟨msg, after, chosen, takes, large, result⟩ | ⟨nothing, received, failed, result⟩
  · refine ⟨_, by rw [step, result]; rfl, ?_, fun spoilt => (spoilt ?_).elim⟩
    · refine fun _ => ⟨valid.take takes _ cbytes qnum, ?_⟩
      intro received other same failed
      rw [result] at same
      cases same
      exact (failed _ _ rfl).elim
    · intro other mem
      rw [chosen] at mem
      cases mem
      exact fits
  · refine ⟨_, by rw [step, result]; rfl, fun safe => ?_, fun _ => ?_⟩
    · exact (large (safe msg chosen)).elim
    · exact not_exact_of_takes valid takes
  · have kept : sys.afterReceive (received, sys.queue) = sys := by
      cases received with
      | success msg copied => exact (failed msg copied rfl).elim
      | failure errno | suspended mtype => rfl
    refine ⟨sys, by rw [step, result, Option.map_some, kept], ?_, fun spoilt => (spoilt ?_).elim⟩
    · refine fun _ => ⟨valid, ?_⟩
      intro other after same _
      rw [result] at same
      cases same
      rfl
    · intro msg mem
      rw [nothing] at mem
      cases mem

/-- What a try from a consistent state does to the account. -/
theorem step_exact_iff (event : Event) (possible : sys.Possible event) :
    ∃ next, sys.step event = some next /\
      (next.Exact /\ sys.Quiet event <-> sys.Safe event) /\
      (sys.Safe event -> next.Consistent) := by
  have stepped : ∃ next, sys.step event = some next /\
      (sys.Safe event -> next.Consistent /\ sys.Quiet event) /\
      (¬ sys.Safe event -> ¬ next.Exact) := by
    cases event with
    | send type text flags cell => exact step_send valid type text flags cell possible
    | receive mlen mtype flags => exact step_receive valid mlen mtype flags
  obtain ⟨next, stepped, keeps, breaks⟩ := stepped
  refine ⟨next, stepped, ⟨?_, fun safe => ⟨(keeps safe).1.toExact, (keeps safe).2⟩⟩,
    fun safe => (keeps safe).1⟩
  rintro ⟨account, -⟩
  by_contra spoilt
  exact breaks spoilt account

end

/--
Over every interleaving of sends and receives on a new queue, with any types,
sizes and flags: as long as every try is `Safe`, the list is what was sent and
not received; and at each point a further try keeps the account exactly if it
is `Safe`.
-/
theorem msg_queue_exact_iff (events : List Event)
    (allowed : AllowedRun step (fun sys event => sys.Possible event /\ sys.Safe event)
      start events) (count : Nat) :
    ∃ sys, run step start (events.take count) = some sys /\ sys.Exact /\
      ∀ event, sys.Possible event -> ∃ next, sys.step event = some next /\
          (next.Exact /\ sys.Quiet event <-> sys.Safe event) := by
  have keeps : ∀ (sys : System) (event : Event), sys.Consistent ->
      sys.Possible event /\ sys.Safe event ->
      ∃ next, step sys event = some next /\ next.Consistent := by
    intro sys event valid both
    obtain ⟨next, stepped, -, kept⟩ := step_exact_iff valid event both.1
    exact ⟨next, stepped, kept both.2⟩
  obtain ⟨sys, ran, valid⟩ := run_invariant keeps start_consistent (allowed.take count)
  refine ⟨sys, ran, valid.toExact, ?_⟩
  intro event possible
  obtain ⟨next, stepped, same, -⟩ := step_exact_iff valid event possible
  exact ⟨next, stepped, same⟩

/-- Two messages are sent, and the second one is received by its type. -/
def exchange : List Event :=
  [.send 1 [65] 0 (some 4), .send 2 [66, 67] 0 (some 8), .receive 2 2 0]

theorem msg_queue_exact_exchange :
    ∃ sys, run step start (exchange.take 3) = some sys /\ sys.Exact /\
      ∀ event, sys.Possible event -> ∃ next, sys.step event = some next /\
          (next.Exact /\ sys.Quiet event <-> sys.Safe event) := by
  refine msg_queue_exact_iff exchange ?_ 3
  refine ⟨⟨⟨rfl, by decide, by decide⟩, by unfold Safe; decide⟩, ?_⟩
  rintro next ⟨⟩
  refine ⟨⟨⟨rfl, by decide, by decide⟩, by unfold Safe; decide⟩, ?_⟩
  rintro next ⟨⟩
  refine ⟨⟨trivial, ?_⟩, fun _ _ => trivial⟩
  rintro msg ⟨⟩
  exact Or.inl (by decide)

/-- A message of two bytes is lost to a receive for one byte without
`IPC_NOERROR`, which fails: the list is empty, and the counters still count it. -/
theorem msgrcv_loses_large_message : ∃ sys next,
      run step start [.send 1 [65, 66] 0 (some 4)] = some sys /\
      sys.Exact /\ sys.step (.receive 1 0 0) = some next /\
      next.outstanding = sys.outstanding /\ next.queue.first = none /\
      next.queue.qnum = 1 /\ next.queue.cbytes = 2 /\ ¬ next.Exact := by
  have possible : start.Possible (.send 1 [65, 66] 0 (some 4)) := ⟨rfl, by decide, by decide⟩
  obtain ⟨sys, stepped, -, kept⟩ := step_exact_iff start_consistent _ possible
  cases stepped
  have valid := kept (by unfold Safe; decide)
  refine ⟨_, _, rfl, valid.toExact, rfl, rfl, rfl, rfl, rfl, ?_⟩
  intro account
  have listed := account.listed
  cases listed

end System

end MessageQueue

end Clib4.Posix
