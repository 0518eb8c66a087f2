import Clib4.Posix.MessageQueue

namespace Clib4.Posix.MessageQueue

open Foundation

/-!
# Requests and limits of message queues

`_msgrcv` turns a negative `mtype` round, and a call that has waited goes on
with the positive one.  `msgctl` may lower the limit of a queue below what the
queue holds; the room that is left is then computed as a large number.
-/

/-- What a call of `_msgrcv` returns, once it does. -/
def Received.result : Received -> Option Int
  | .success .. => some 0
  | .failure _ => some (-1)
  | .suspended _ => none

namespace Queue

/-! ## What is received -/

/-- The message that a request means: the first one, the first of a type, or the
first of the lowest type up to a bound. -/
def meant (mtype : Int) (messages : List Message) : Option Message :=
  messages.find? fun msg =>
    if 0 < mtype then decide (msg.type = mtype)
    else if mtype < 0 then
      decide (msg.type <= -mtype /\
        ∀ other ∈ messages, other.type <= -mtype -> msg.type <= other.type)
    else true

/-- `mtype` at the start of a call, and at its next try after some that had to wait. -/
inductive Retried (mlen : Nat) (flags : UInt32) : Int -> Int -> Prop
  | first (mtype : Int) : Retried mlen flags mtype mtype
  | again {queue after : Queue} {mtype next asked : Int} :
    queue.msgrcv mlen mtype flags = some (.suspended next, after) ->
    Retried mlen flags next asked -> Retried mlen flags mtype asked

variable {queue after : Queue} {mlen : Nat} {flags : UInt32} {mtype asked : Int} {msg : Message}
  {copied : List UInt8}

theorem suspended_eq {next : Int}
    (suspended : queue.msgrcv mlen mtype flags = some (.suspended next, after)) :
    next = if mtype < 0 then negate mtype else mtype := by
  unfold msgrcv at suspended
  split at suspended
  · cases suspended
  · dsimp only at suspended
    split_ifs at suspended <;> cases suspended
  · split_ifs at suspended <;> cases suspended <;> simp [*]

theorem Retried.asked_eq (retried : Retried mlen flags mtype asked) :
    asked = mtype \/ mtype < 0 /\ asked = negate mtype := by
  induction retried with
  | first mtype => exact Or.inl rfl
  | again suspended _ ih =>
    have next := suspended_eq suspended
    unfold negate at next ih ⊢
    split_ifs at next ih ⊢ <;> omega

theorem type_le_of_wants (negative : mtype < 0) (current : asked = mtype \/ asked = negate mtype)
    (wanted : wants asked msg) : msg.type <= -mtype := by
  unfold wants negate at wanted
  unfold negate at current
  split_ifs at wanted current <;> simp only [decide_eq_true_eq] at wanted <;> omega

/-- What is found is what is meant unless a lower type than that found was asked for. -/
theorem meant_iff (current : asked = mtype \/ mtype < 0 /\ asked = negate mtype)
    (chosen : queue.choice asked = some msg) :
    meant mtype queue.messages = some msg <->
      (mtype < 0 -> ∀ other ∈ queue.messages, msg.type <= other.type) := by
  by_cases negative : mtype < 0
  · obtain ⟨wanted, before, behind, parts, unwanted⟩ := List.find?_eq_some_iff_append.mp chosen
    have small := type_le_of_wants negative (current.imp_right And.right) wanted
    unfold meant
    simp only [if_neg (show ¬ 0 < mtype by omega), if_pos negative]
    constructor
    · intro found _ other mem
      have lowest := List.find?_some found
      rw [decide_eq_true_eq] at lowest
      by_cases low : other.type <= -mtype
      · exact lowest.2 other mem low
      · omega
    · intro lowest
      have least := lowest negative
      refine List.find?_eq_some_iff_append.mpr
        ⟨decide_eq_true ⟨small, fun other mem _ => least other mem⟩, _, _, parts, ?_⟩
      intro earlier mem
      -- an earlier message of the same type would have been found
      have inside := parts ▸ List.mem_append_left _ mem
      have other := unwanted earlier mem
      have above := least earlier inside
      simp only [Bool.not_eq_true', decide_eq_false_iff_not, not_and]
      intro _ lower
      have below := lower msg (parts ▸ by simp) small
      have same : earlier.type = msg.type := by omega
      rw [wants, same, <- wants, wanted] at other
      cases other
  · have asks := current.resolve_right fun both => negative both.1
    subst asks
    refine iff_of_true ?_ fun negated => absurd negated negative
    rw [<- chosen]
    unfold meant choice wants
    simp only [if_neg negative]

/-- A message that is delivered is the one meant, and its length is returned, when
it has no text, or no room for any, and no message of a lower type than it is in the queue. -/
theorem msgrcv_delivers_iff (retried : Retried mlen flags mtype asked)
    (received : queue.msgrcv mlen asked flags = some (.success msg copied, after)) :
    (meant mtype queue.messages = some msg /\
      (Received.success msg copied).result = some (copied.length : Int)) <->
    ∀ chosen ∈ queue.choice asked,
      (mtype < 0 -> ∀ other ∈ queue.messages, chosen.type <= other.type) /\
        (mlen = 0 \/ chosen.text = []) := by
  obtain ⟨chosen, taken⟩ : queue.choice asked = some msg /\
      copied = msg.text.take mlen := by
    rcases queue.msgrcv_cases mlen asked flags with
      ⟨_, _, chosen, _, _, _, _, ran⟩ | ⟨_, _, _, _, _, ran⟩ | ⟨_, _, other, ran⟩ <;>
      rw [ran] at received <;> cases received
    · exact ⟨chosen, rfl⟩
    · exact absurd rfl (other msg copied)
  simp only [chosen, Option.mem_some, forall_eq']
  refine and_congr (meant_iff retried.asked_eq chosen) ?_
  rw [taken, Received.result, <- List.length_eq_zero_iff, List.length_take, Option.some.injEq]
  omega

/-! ## The limit -/

/-- `IPC_SET` of `_msgctl`. -/
def msgctlSet (queue : Queue) (qbytes : UInt32) : Queue :=
  if 0 < qbytes then { queue with qbytes := qbytes.toNat } else queue

/-- The calls that concern the limit, each a try. -/
inductive Call
  | send (msg : Message) (flags : UInt32) (cell : Option Nat)
  | receive (mlen : Nat) (mtype : Int) (flags : UInt32)
  | set (qbytes : UInt32)

def call (queue : Queue) : Call -> Option Queue
  | .send msg flags cell =>
    (System.grant queue cell).map fun cell => (queue.msgsnd msg flags cell).2
  | .receive mlen mtype flags => (queue.msgrcv mlen mtype flags).map Prod.snd
  | .set qbytes => some (queue.msgctlSet qbytes)

/-- How much `_msgsnd` asks of `malloc`: a `struct Msg` has 12 bytes. -/
def blockSize (msg : Message) : Nat := (msg.size + 12) % 2 ^ 32

/-- What is left by the computation of `_msgsnd`. -/
def bleft (queue : Queue) : Nat := (queue.qbytes + (2 ^ 32 - queue.cbytes)) % 2 ^ 32

def Words (queue : Queue) : Prop := queue.cbytes < 2 ^ 32 /\ queue.qbytes < 2 ^ 32

theorem msgsnd_success {cell : Option { cell : Nat // queue.Fresh cell }}
    (sent : queue.msgsnd msg flags cell = (.success, after)) :
    after.qbytes = queue.qbytes /\ after.cbytes =
      if msg.size <= queue.bleft then (queue.cbytes + msg.size) % 2 ^ 32
      else queue.cbytes := by
  unfold msgsnd at sent
  unfold bleft
  dsimp only at sent
  split_ifs at sent ⊢
  · cases cell <;> cases sent
    exact ⟨rfl, rfl⟩
  all_goals cases sent
  exact ⟨rfl, rfl⟩

theorem Words.call {request : Call} (words : queue.Words)
    (called : queue.call request = some after) : after.Words := by
  cases request with
  | send msg flags cell =>
    obtain ⟨granted, -, rfl⟩ := Option.map_eq_some_iff.mp called
    unfold msgsnd
    dsimp only
    split_ifs
    · cases granted with
      | none => exact words
      | some cell => exact ⟨Nat.mod_lt _ (Nat.two_pow_pos 32), words.2⟩
    all_goals exact words
  | receive mlen mtype flags =>
    obtain ⟨⟨received, next⟩, ran, rfl⟩ := Option.map_eq_some_iff.mp called
    unfold msgrcv at ran
    split at ran
    · cases ran
    · dsimp only at ran
      split_ifs at ran <;> cases ran
      · exact ⟨Nat.mod_lt _ (Nat.two_pow_pos 32), words.2⟩
      · exact words
    · split_ifs at ran <;> cases ran <;> exact words
  | set qbytes =>
    cases called
    unfold msgctlSet
    split_ifs
    · exact ⟨words.1, qbytes.toNat_lt⟩
    · exact words

/-- Wherever calls have led, a send keeps the limit when the content does, or when
the counter wraps around; and the block holds the message when its size does not
wrap around. -/
theorem msgsnd_within_limit_iff {calls : List Call} (ran : run call construct calls = some queue)
    {cell : Option { cell : Nat // queue.Fresh cell }}
    (sent : queue.msgsnd msg flags cell = (.success, after)) :
    (after.cbytes <= after.qbytes /\
      (msg.size <= queue.bleft -> msg.size + 12 <= blockSize msg)) <->
    if msg.size <= queue.bleft then
      (queue.cbytes <= queue.qbytes \/ 2 ^ 32 <= queue.cbytes + msg.size) /\
        msg.size + 12 < 2 ^ 32
    else queue.cbytes <= queue.qbytes := by
  have start : construct.Words := ⟨by decide, by decide⟩
  obtain ⟨held, limit⟩ : queue.Words :=
    run_preserves (fun _ _ _ words called => words.call called) start ran
  obtain ⟨qbytes, cbytes⟩ := msgsnd_success sent
  rw [qbytes, cbytes]
  unfold blockSize
  split_ifs with fits
  · rw [imp_iff_right fits]
    unfold bleft at fits
    omega
  · exact and_iff_left fun small => absurd small fits

end Queue

/-- The empty message is received as it is meant. -/
theorem msgrcv_of_empty_message :
    ∃ queue after, Queue.call construct (.send ⟨1, [], 0⟩ 0 (some 8)) = some queue /\
      queue.msgrcv 4 (-5) 0 = some (.success ⟨1, [], 0⟩ [], after) /\
      Queue.meant (-5) queue.messages = some ⟨1, [], 0⟩ := by
  have retried : Queue.Retried 4 0 (-5) (-5) := .first _
  refine ⟨_, _, rfl, rfl, ((Queue.msgrcv_delivers_iff retried rfl).mpr fun chosen picked => ?_).1⟩
  have same : some ⟨1, [], 0⟩ = some chosen := picked
  cases same
  exact ⟨fun _ => by decide, Or.inr rfl⟩

/-- Of the types 3 and 2 the first is received for -3, and 0 is returned for its byte;
a call that waited for -3 leaves the type 2 alone. -/
theorem msgrcv_takes_first : ∃ queue after waiting last, run Queue.call construct
        [.send ⟨3, [7], 0⟩ 0 (some 8), .send ⟨2, [9], 1⟩ 0 (some 24)] = some queue /\
      queue.msgrcv 4 (-3) 0 = some (.success ⟨3, [7], 0⟩ [7], after) /\
      (Received.success ⟨3, [7], 0⟩ [7]).result = some 0 /\
      Queue.meant (-3) queue.messages = some ⟨2, [9], 1⟩ /\
      construct.msgrcv 4 (-3) 0 = some (.suspended 3, waiting) /\
      after.msgrcv 4 3 0 = some (.suspended 3, last) :=
  ⟨_, _, _, _, rfl, rfl, rfl, by decide, rfl, rfl⟩

/-- With the limit set to 3 above a content of 2, one byte more is within it. -/
theorem msgsnd_within_limit_behind_set : ∃ queue after fresh, run Queue.call construct
        [.send ⟨1, [7, 7], 0⟩ 0 (some 8), .set 3] = some queue /\
      queue.msgsnd ⟨1, [7], 1⟩ 0 (some ⟨24, fresh⟩) = (.success, after) /\
      after.cbytes <= after.qbytes := by
  obtain ⟨queue, after, fresh, ran, sent, below⟩ : ∃ queue after fresh,
      run Queue.call construct [.send ⟨1, [7, 7], 0⟩ 0 (some 8), .set 3] = some queue /\
        queue.msgsnd ⟨1, [7], 1⟩ 0 (some ⟨24, fresh⟩) = (.success, after) /\
        queue.cbytes <= queue.qbytes :=
    ⟨_, _, by decide, rfl, rfl, by decide⟩
  refine ⟨queue, after, fresh, ran, sent, ((Queue.msgsnd_within_limit_iff ran sent).mpr ?_).1⟩
  split_ifs
  · exact ⟨.inl below, by decide⟩
  · exact below

/-- With the limit set to 1 below a content of 2, one byte more is accepted. -/
theorem msgsnd_beyond_limit : ∃ queue after fresh, run Queue.call construct
        [.send ⟨1, [7, 7], 0⟩ 0 (some 8), .set 1] = some queue /\
      queue.msgsnd ⟨1, [7], 1⟩ 0 (some ⟨24, fresh⟩) = (.success, after) /\
      after.qbytes < after.cbytes :=
  ⟨_, _, by decide, rfl, rfl, by decide⟩

end Clib4.Posix.MessageQueue
