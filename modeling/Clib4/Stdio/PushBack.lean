import Clib4.Stdio.Window

namespace Clib4.Stdio

open Foundation Printf

/-!
# Characters that were pushed back

`ungetc` moves the read position back by one and stores its character there,
over the byte that was read last.  Whatever takes its bytes from the window
finds the character; what is behind it is as it was.  `fread` of an unbuffered
stream does not look into the window.
-/

namespace Iob

section

variable {δ : Type}

def pushed (byte : UInt8) (file : Iob δ) : Iob δ :=
  { file with
    eofReached := false
    bufferPosition := file.bufferPosition - 1
    buffer := file.buffer.store (file.bufferPosition - 1) [byte] }

/-- Two streams that differ in what lies before the read position, and in
their flags for the end of the file. -/
structure Alike (file other : Iob δ) : Prop where
  same : other = { file with buffer := other.buffer, eofReached := other.eofReached }
  window : ∀ addr, file.bufferPosition <= addr -> addr < file.bufferReadBytes ->
    other.buffer addr = file.buffer addr

theorem Alike.skip {file other : Iob δ} (alike : Alike file other) (count : Nat) :
    Alike (file.skip count) (other.skip count) := by
  refine ⟨?_, ?_⟩
  · rw [alike.same]
    rfl
  · intro addr from' below
    have from'' : file.bufferPosition + count <= addr := from'
    exact alike.window addr (by omega) below

theorem alike_pushed (byte : UInt8) (file : Iob δ) : Alike file ((file.pushed byte).skip 1) := by
  refine ⟨?_, ?_⟩
  · simp [pushed, Iob.skip]
  · intro addr from' below
    change file.buffer.store (file.bufferPosition - 1) [byte] addr = _
    rw [Block.store_apply]
    split
    · have behind : [byte][(addr - (file.bufferPosition - 1)).toNat]? = none := by
        rw [List.getElem?_eq_none_iff, List.length_singleton]
        omega
      rw [behind]
      rfl
    · rfl

theorem buffer_pushed {byte : UInt8} {file : Iob δ} :
    (file.pushed byte).buffer (file.pushed byte).bufferPosition = byte := by
  change file.buffer.store (file.bufferPosition - 1) [byte] (file.bufferPosition - 1) = byte
  rw [Block.store_apply, if_pos (le_refl _), Int.sub_self]
  rfl

end

variable {δ : Type} [Action δ]

/-! ## Streams that are alike -/

variable {file other : Iob δ}

section

variable (alike : Alike file other) (windowed : file.Windowed)
include alike windowed

theorem Alike.getc (settled : file.writeBufferIsValid = false) :
    other.getc.1 = file.getc.1 /\ Alike file.getc.2 other.getc.2 := by
  have settled' : other.writeBufferIsValid = false := by
    rw [alike.same]
    exact settled
  rw [getc_eq settled, getc_eq settled']
  by_cases unread : file.bufferPosition < file.bufferReadBytes
  · have unread' : other.bufferPosition < other.bufferReadBytes := by
      rw [alike.same]
      exact unread
    rw [if_pos (Or.inl unread), if_pos (Or.inl unread')]
    have position : other.bufferPosition = file.bufferPosition := by rw [alike.same]
    refine ⟨?_, alike.skip 1⟩
    rw [position, alike.window _ (le_refl _) unread]
  · have usedUp : ¬ (file.bufferPosition < file.bufferReadBytes \/
        file.readBufferIsEmpty = false) := by
      rintro (some | some)
      · exact unread some
      · exact unread (windowed.unread_of_not_empty some)
    have usedUp' : ¬ (other.bufferPosition < other.bufferReadBytes \/
        other.readBufferIsEmpty = false) := by
      rw [alike.same]
      exact usedUp
    have fetched : other.fetch = file.fetch := by
      rw [alike.same]
      rfl
    rw [if_neg usedUp, if_neg usedUp', fetched]
    have nothing : ∀ (next next' : Iob δ), next.bufferReadBytes <= next.bufferPosition ->
        next' = { next with buffer := next'.buffer, eofReached := next'.eofReached } ->
        Alike next next' := by
      intro next next' none same
      exact ⟨same, fun addr from' below => by omega⟩
    rcases file.fetch with ⟨_ | code | _ | ⟨c, rest⟩, device⟩
    · refine ⟨rfl, nothing _ _ (Int.not_lt.mp unread) ?_⟩
      rw [alike.same]
      rfl
    · refine ⟨rfl, nothing _ _ (Int.not_lt.mp unread) ?_⟩
      rw [alike.same]
      rfl
    · refine ⟨rfl, nothing _ _ (le_refl _) ?_⟩
      rw [alike.same]
      rfl
    · refine ⟨rfl, Alike.skip ⟨?_, ?_⟩ 1⟩
      · rw [alike.same]
        rfl
      · intro addr from' below
        change other.buffer.store 0 (c :: rest) addr = file.buffer.store 0 (c :: rest) addr
        have nonneg : 0 <= addr := from'
        have inside : (addr - 0).toNat < (c :: rest).length := by
          have below' : addr < ((c :: rest).length : Int) := below
          omega
        rw [Block.store_apply, Block.store_apply, if_pos nonneg, if_pos nonneg,
          List.getElem?_eq_getElem inside]
        rfl

theorem Alike.getcs (ready : file.Ready) (n : Nat) : (other.getcs n).1 = (file.getcs n).1 := by
  induction n generalizing file other with
  | zero => rfl
  | succ n ih =>
    obtain ⟨answer, after⟩ := alike.getc windowed ready.settled
    have windowed' := windowed.getc ready.settled
    have ready' := ready.getc
    rw [Iob.getcs, Iob.getcs]
    generalize file.getc = got at answer after windowed' ready' ⊢
    generalize other.getc = got' at answer after ⊢
    rcases got with ⟨byte, next⟩
    rcases got' with ⟨byte', next'⟩
    obtain rfl : byte' = byte := answer
    cases byte' with
    | none => rfl
    | some c =>
      dsimp only
      rw [ih after windowed' ready']

theorem Alike.fgetsBytes (ready : file.Ready) (n : Nat) (s : List UInt8) :
    (other.fgetsBytes n s).1 = (file.fgetsBytes n s).1 /\
      (other.fgetsBytes n s).2.error = (file.fgetsBytes n s).2.error := by
  have errors : ∀ {file other : Iob δ}, Alike file other -> other.error = file.error := by
    intro file other alike
    rw [alike.same]
  induction n generalizing file other s with
  | zero => exact ⟨rfl, errors alike⟩
  | succ n ih =>
    obtain ⟨answer, after⟩ := alike.getc windowed ready.settled
    have windowed' := windowed.getc ready.settled
    have ready' := ready.getc
    rw [Iob.fgetsBytes, Iob.fgetsBytes]
    generalize file.getc = got at answer after windowed' ready' ⊢
    generalize other.getc = got' at answer after ⊢
    rcases got with ⟨byte, next⟩
    rcases got' with ⟨byte', next'⟩
    obtain rfl : byte' = byte := answer
    have same := errors after
    cases byte' with
    | none =>
      dsimp only at same ⊢
      rw [same]
      exact ⟨rfl, rfl⟩
    | some c =>
      dsimp only at same ⊢
      split
      · exact ⟨rfl, same⟩
      · exact ih after windowed' ready' (s ++ [c])

end

variable {file : Iob δ}

theorem fgetsBytes_cons (ready : file.Ready) (clean : file.error = false)
    (n : Nat) (c : UInt8) (s : List UInt8) :
    file.fgetsBytes n (c :: s) =
      (⟨(file.fgetsBytes n s).2.error, c :: (file.fgetsBytes n s).1.stored⟩,
        (file.fgetsBytes n s).2) := by
  induction n generalizing file s with
  | zero =>
    simp only [fgetsBytes, clean]
    rfl
  | succ n ih =>
    have after := ready.getc
    have still : ∀ d, file.getc.1 = some d -> file.getc.2.error = false := by
      intro d got
      rcases getc_cases ready.settled with same | ⟨-, same⟩
      · rw [same]
        exact clean
      · rw [same] at got ⊢
        generalize file.fetch = fetched at got ⊢
        rcases fetched with ⟨_ | code | _ | ⟨e, rest⟩, device⟩
        · cases got
        · cases got
        · cases got
        · exact clean
    rw [fgetsBytes, fgetsBytes]
    generalize file.getc = got at after still ⊢
    rcases got with ⟨_ | d, next⟩
    · simp
    · dsimp only
      have clean' := still d rfl
      split
      · dsimp only at clean'
        simp [clean']
      · exact ih after clean' (s ++ [d])

/-! ## What a reader finds -/

/-- What `read` on the descriptor would answer, once pending output is
written. -/
def descriptorBytes (n : Nat) (file : Iob δ) : List UInt8 :=
  ((file.settledOn file.settlement.2.1 0).readDescriptor n).1.getD []

theorem readDescriptor_congr {first second : Iob δ} (devices : first.device = second.device)
    (orders : first.descriptorLittleEndian = second.descriptorLittleEndian) (n : Nat) :
    (first.readDescriptor n).1 = (second.readDescriptor n).1 := by
  unfold readDescriptor
  rw [devices, orders]
  repeat' split
  all_goals rfl

theorem pushed_getc (byte : UInt8) (windowed : file.Windowed) :
    (file.pushed byte).getc = (some byte, (file.pushed byte).skip 1) := by
  have ordered := windowed.positionLe
  have unread : (file.pushed byte).bufferPosition < (file.pushed byte).bufferReadBytes := by
    change file.bufferPosition - 1 < file.bufferReadBytes
    omega
  rw [getc_unread unread, buffer_pushed]

omit [Action δ] in
theorem ready_pushed (byte : UInt8) (ready : file.Ready) : (file.pushed byte).Ready :=
  ⟨ready.inUse, ready.canRead, ready.settled⟩

theorem ungetc_success {c : Int} (success : (file.ungetc c).1 ≠ none) :
    file.inUse /\ file.canRead /\ file.bufferPosition ≠ 0 /\
      ∃ device pending, file.settlement = (none, device, pending) /\
        file.ungetc c = (some (clip c), (file.settledOn device pending).pushed (clip c)) := by
  unfold ungetc at success ⊢
  by_cases inUse : file.inUse
  · by_cases canRead : file.canRead
    · rw [if_neg (by simp [inUse]), if_neg (by simp [canRead])] at success ⊢
      by_cases eof : c = -1
      · rw [if_pos eof] at success
        exact (success rfl).elim
      · rw [if_neg eof] at success ⊢
        have check : (if file.writeBufferIsValid then file.flushIobWriteBuffer
            else (true, file)) = file.fgetcCheck := by
          simp [fgetcCheck, inUse, canRead]
        rw [check, fgetcCheck_eq inUse canRead] at success ⊢
        generalize file.settlement = answer at success ⊢
        rcases answer with ⟨_ | code, device, pending⟩
        · dsimp only at success ⊢
          by_cases start : (file.settledOn device pending).bufferPosition = 0
          · rw [if_pos start] at success
            exact (success rfl).elim
          · rw [if_neg start]
            exact ⟨inUse, canRead, start, device, pending, rfl, rfl⟩
        · exact (success rfl).elim
    · rw [if_neg (by simp [inUse]), if_pos (by simpa using canRead)] at success
      exact (success rfl).elim
  · rw [if_pos (by simpa using inUse)] at success
    exact (success rfl).elim

section

variable {file : Iob δ} (inUse : file.inUse) (canRead : file.canRead)
  (windowed : file.Windowed) {device : δ} {pending : Int}
  (settled : file.settlement = (none, device, pending)) (byte : UInt8)

include inUse canRead windowed settled

theorem fgetcs_pushed (n : Nat) : (((file.settledOn device pending).pushed byte).fgetcs (n + 1)).1 =
      byte :: (file.fgetcs n).1 := by
  have ready := ready_of_settlement inUse canRead settled
  have windowed' : (file.settledOn device pending).Windowed := windowed.of_window rfl
  have plain : (file.fgetcs n).1 = ((file.settledOn device pending).getcs n).1 := by
    cases n with
    | zero => rfl
    | succ n => rw [fgetcs_succ inUse canRead, settled]
  rw [(ready_pushed byte ready).fgetcs, getcs, pushed_getc byte windowed', plain]
  dsimp only
  rw [(alike_pushed byte _).getcs windowed' ready]

theorem fgets_pushed {n : Int} (large : 2 <= n) :
    (((file.settledOn device pending).pushed byte).fgets n).1 =
      if byte = lineFeed then ⟨false, [byte, 0]⟩
      else ⟨(file.fgets (n - 1)).2.error, byte :: (file.fgets (n - 1)).1.stored⟩ := by
  have ready := ready_of_settlement inUse canRead settled
  have windowed' : (file.settledOn device pending).clearerr.Windowed := windowed.of_window rfl
  have ready' : (file.settledOn device pending).clearerr.Ready :=
    ⟨ready.inUse, ready.canRead, ready.settled⟩
  have before : file.fgets (n - 1) =
      (file.settledOn device pending).clearerr.fgetsBytes (n - 2).toNat [] := by
    have less : (n - 1 - 1).toNat = (n - 2).toNat := by omega
    rw [fgets, if_neg (by omega), fgetcCheck_eq inUse canRead, settled]
    dsimp only
    rw [fgetsLoop_eq _ _ _ _ (le_refl _), less]
  have count : (n - 1).toNat = (n - 2).toNat + 1 := by omega
  have after : ((file.settledOn device pending).pushed byte).fgets n =
      ((file.settledOn device pending).clearerr.pushed byte).fgetsBytes ((n - 2).toNat + 1) [] := by
    rw [(ready_pushed byte ready).fgets_eq (by omega), count]
    rfl
  rw [after, before, fgetsBytes, pushed_getc byte windowed']
  dsimp only
  by_cases ends : byte = lineFeed
  · rw [if_pos ends, if_pos ends]
    rfl
  · rw [if_neg ends, if_neg ends]
    have alike := alike_pushed byte (file.settledOn device pending).clearerr
    obtain ⟨same, error⟩ := alike.fgetsBytes windowed' ready' (n - 2).toNat []
    have readyAfter := (ready_pushed byte ready').skip 1
    rw [List.nil_append, fgetsBytes_cons readyAfter rfl, same, error]

theorem freadInternal_pushed (moved : file.bufferPosition ≠ 0)
    (buffered : file.bufferMode ≠ .none) {elementSize count : Nat}
    (posSize : 0 < elementSize) (posCount : 0 < count)
    (fits : elementSize * count < 2 ^ 32) :
    (((file.settledOn device pending).pushed byte).freadInternal elementSize count).1.2 =
      byte :: (file.freadInternal 1 (elementSize * count - 1)).1.2 := by
  have ready := ready_of_settlement inUse canRead settled
  have windowed' : (file.settledOn device pending).clearerr.Windowed := windowed.of_window rfl
  have ready' : (file.settledOn device pending).clearerr.Ready :=
    ⟨ready.inUse, ready.canRead, ready.settled⟩
  have through : ∀ total, ¬ (file.settledOn device pending).clearerr.Bypasses total :=
    fun total bypass => moved (windowed.position_of_empty bypass.1)
  have through' := through
  obtain ⟨m, total⟩ := Nat.exists_eq_succ_of_ne_zero (Nat.ne_of_gt (Nat.mul_pos posSize
    posCount))
  have after : (((file.settledOn device pending).pushed byte).freadInternal elementSize count).1.2 =
      (((file.settledOn device pending).clearerr.pushed byte).getcs (m + 1)).1 := by
    have settled' : ((file.settledOn device pending).pushed byte).settlement =
        (none, device, pending) := by
      unfold settlement
      rw [if_neg (by rw [(ready_pushed byte ready).settled]; simp)]
      rfl
    rw [freadInternal_getcs (ready_pushed byte ready).inUse (ready_pushed byte ready).canRead
      buffered posSize posCount fits settled' (through' _), total]
    rfl
  have before : (file.freadInternal 1 m).1.2 =
      ((file.settledOn device pending).clearerr.getcs m).1 := by
    cases m with
    | zero =>
      simp only [freadInternal, inUse, canRead]
      rfl
    | succ m =>
      rw [freadInternal_getcs inUse canRead buffered Nat.one_pos (Nat.succ_pos m) (by omega)
        settled (through _), Nat.one_mul]
      rfl
  rw [after, total, Nat.succ_sub_one, before, getcs, pushed_getc byte windowed']
  dsimp only
  rw [(alike_pushed byte _).getcs windowed' ready']

end

/-- `fread` reads straight from the descriptor. -/
def Direct (n : Nat) (file : Iob δ) : Prop :=
  file.bufferMode = .none \/ file.Bypasses n

instance (n : Nat) (file : Iob δ) : Decidable (file.Direct n) :=
  inferInstanceAs (Decidable (_ \/ _))

theorem freadBytes_direct {n : Nat} (pos : 0 < n) (direct : file.Direct n) :
    file.freadBytes n =
      match file.freadDirect n with
      | (none, next) => (⟨[], true⟩, next)
      | (some bytes, next) => (⟨bytes, false⟩, next) := by
  unfold freadBytes
  split
  · rfl
  · rename_i buffered
    exact (freadLoop_bypass pos (direct.resolve_left buffered)).trans rfl

theorem freadInternal_direct (inUse : file.inUse)
    (canRead : file.canRead) (settled : file.settlement.1 = none) {elementSize count : Nat}
    (posSize : 0 < elementSize) (posCount : 0 < count)
    (fits : elementSize * count < 2 ^ 32) (direct : file.Direct (elementSize * count)) :
    (file.freadInternal elementSize count).1 =
      ((file.descriptorBytes (elementSize * count)).length / elementSize,
        file.descriptorBytes (elementSize * count)) := by
  have pos := Nat.mul_pos posSize posCount
  unfold descriptorBytes
  rw [freadInternal_eq inUse canRead posSize posCount fits]
  generalize file.settlement = answer at settled ⊢
  rcases answer with ⟨_ | code, device, pending⟩
  · have direct' : (file.clearerr.settledOn device pending).Direct (elementSize * count) := direct
    dsimp only
    rw [freadBytes_direct pos direct']
    unfold freadDirect
    rw [@readDescriptor_congr _ _ (file.settledOn device 0) (file.clearerr.settledOn device pending)
      rfl rfl]
    rcases (file.clearerr.settledOn device pending).readDescriptor (elementSize * count) with
      ⟨_ | bytes, next⟩
    · simp
    · rfl
  · cases settled

/-! ## Positions -/

omit [Action δ] in
theorem Windowed.window_of_moved (windowed : file.Windowed)
    (moved : file.bufferPosition ≠ 0) : 0 < file.bufferReadBytes := by
  rcases Int.lt_or_eq_of_le windowed.readNonneg with pos | none
  · exact pos
  · exact (moved (windowed.position_of_empty none.symm)).elim

omit [Action δ] in
theorem streamPosition_of_window (window : 0 < file.bufferReadBytes)
    (ordered : file.bufferPosition <= file.bufferReadBytes) (position : Int) :
    file.streamPosition position = position - (file.bufferReadBytes - file.bufferPosition) := by
  have valid : file.readBufferIsValid := by
    simpa only [readBufferIsValid, decide_eq_true_eq] using window
  unfold streamPosition numUnreadBytes
  rw [if_pos valid]
  split
  · rfl
  · omega

end Iob

theorem toLong_eq_sub_one_iff {first second : Int} : toLong second = toLong first - 1 <->
      second % 2 ^ 32 = (first - 1) % 2 ^ 32 /\ toLong first ≠ longMin := by
  have lower := longMin_le_toLong first
  have upper := toLong_le_longMax first
  have lower' := longMin_le_toLong second
  have upper' := toLong_le_longMax second
  have congruent : ∀ value, toLong value % 2 ^ 32 = value % 2 ^ 32 := by
    intro value
    rw [toLong_eq_bmod]
    exact Int.bmod_emod
  have firstMod := congruent first
  have secondMod := congruent second
  unfold longMin longMax at *
  omega

namespace Iob

variable {δ φ : Type} [Action δ]

/--
In every state that a stream reaches, over any device: behind a successful
`ungetc` the next `fgetc`s and `fgets` deliver the character and then what
they would have delivered.  So does `fread`, exactly if the stream is buffered
or the descriptor happens to have the character there.  `ftell` is one less
exactly if pending output does not move the position and there is a `long`
below the old one.
-/
theorem ungetc_delivers_iff (lib : Library φ) {start : Iob δ} (opened : Opened start)
    (operations : List (Operation φ)) (c : Int) :
    let before := start.performAll lib operations
    let after := (before.ungetc c).2
    (before.ungetc c).1 ≠ none ->
      (∀ n, (after.fgetcs (n + 1)).1 = clip c :: (before.fgetcs n).1) /\
      (∀ n, 2 <= n -> (after.fgets n).1 =
        if clip c = lineFeed then ⟨false, [clip c, 0]⟩
        else ⟨(before.fgets (n - 1)).2.error, clip c :: (before.fgets (n - 1)).1.stored⟩) /\
      (∀ elementSize count, 0 < elementSize -> 0 < count -> elementSize * count < 2 ^ 32 ->
        ((after.freadInternal elementSize count).1.2 =
            clip c :: (before.freadInternal 1 (elementSize * count - 1)).1.2 <->
          (before.bufferMode = .none -> before.descriptorBytes (elementSize * count) =
              clip c :: before.descriptorBytes (elementSize * count - 1)))) /\
      (∀ place place', (Action.seek before.device 0 .cur).1 = .ok place ->
        (Action.seek before.settlement.2.1 0 .cur).1 = .ok place' ->
        (after.ftell.1 = before.ftell.1 - 1 <->
          place' % 2 ^ 32 = place % 2 ^ 32 /\ before.ftell.1 ≠ longMin)) := by
  intro before after success
  have windowed : before.Windowed := (windowed_of_opened opened).performAll lib operations
  obtain ⟨inUse, canRead, moved, device, pending, settled, result⟩ := ungetc_success success
  have afterEq : after = (before.settledOn device pending).pushed (clip c) :=
    congrArg Prod.snd result
  rw [afterEq]
  have ready := ready_of_settlement inUse canRead settled
  refine ⟨fgetcs_pushed inUse canRead windowed settled _,
    fun n large => fgets_pushed inUse canRead windowed settled _ large, ?_, ?_⟩
  · intro elementSize count posSize posCount fits
    by_cases unbuffered : before.bufferMode = .none
    · have settled' : ((before.settledOn device pending).pushed (clip c)).settlement =
          (none, device, pending) := by
        unfold settlement
        rw [if_neg (by rw [(ready_pushed _ ready).settled]; simp)]
        rfl
      have described : ((before.settledOn device pending).pushed (clip c)).descriptorBytes
          (elementSize * count) = before.descriptorBytes (elementSize * count) := by
        unfold descriptorBytes
        rw [settled', settled]
        refine congrArg (Option.getD · []) ?_
        exact readDescriptor_congr (by rfl) (by rfl) _
      have rest : (before.freadInternal 1 (elementSize * count - 1)).1.2 =
          before.descriptorBytes (elementSize * count - 1) := by
        rcases Nat.eq_zero_or_pos (elementSize * count - 1) with none | some
        · have nothing : before.descriptorBytes 0 = [] := by
            unfold descriptorBytes readDescriptor
            split <;> rfl
          rw [none, nothing]
          simp only [freadInternal, inUse, canRead]
          rfl
        · rw [freadInternal_direct inUse canRead (by rw [settled]) Nat.one_pos some (by omega)
            (Or.inl unbuffered), Nat.one_mul]
      rw [freadInternal_direct (ready_pushed _ ready).inUse (ready_pushed _ ready).canRead
        (by rw [settled']) posSize posCount fits (Or.inl unbuffered), described, rest]
      exact ⟨fun same _ => same, fun same => same unbuffered⟩
    · exact ⟨fun _ none => (unbuffered none).elim, fun _ => freadInternal_pushed inUse canRead
        windowed settled _ moved unbuffered posSize posCount fits⟩
  · intro place place' told told'
    rw [settled] at told'
    have one : before.ftell.1 = toLong (before.streamPosition place) := by
      unfold ftell
      rw [if_neg (by simp [inUse])]
      generalize Action.seek before.device 0 .cur = answer at told ⊢
      rcases answer with ⟨code | position, next⟩
      · cases told
      · cases told
        rfl
    have two : ((before.settledOn device pending).pushed (clip c)).ftell.1 =
        toLong (((before.settledOn device pending).pushed (clip c)).streamPosition place') := by
      have used : ((before.settledOn device pending).pushed (clip c)).inUse := inUse
      have same : ((before.settledOn device pending).pushed (clip c)).device = device := rfl
      unfold ftell
      rw [if_neg (by simp [used]), same]
      generalize Action.seek device 0 .cur = answer at told' ⊢
      rcases answer with ⟨code | position, next⟩
      · cases told'
      · cases told'
        rfl
    have ordered := windowed.positionLe
    have window := windowed.window_of_moved moved
    have back := @streamPosition_of_window δ ((before.settledOn device pending).pushed (clip c))
      window (by change before.bufferPosition - 1 <= before.bufferReadBytes; omega) place'
    have back' : ((before.settledOn device pending).pushed (clip c)).streamPosition place' =
        place' - (before.bufferReadBytes - before.bufferPosition) - 1 := by
      rw [back]
      simp only [pushed, settledOn]
      omega
    rw [one, two, toLong_eq_sub_one_iff, back', streamPosition_of_window window ordered]
    have moves : (place' - (before.bufferReadBytes - before.bufferPosition) - 1) % 2 ^ 32 =
          (place - (before.bufferReadBytes - before.bufferPosition) - 1) % 2 ^ 32 <->
        place' % 2 ^ 32 = place % 2 ^ 32 := by omega
    rw [moves]

end Iob

/-- A byte was read through the buffer. -/
theorem ungetc_delivers_in_buffer :
    let before := (openStream .full 4 (fun _ => 0) ⟨[1, 2, 3], 0, false⟩).performAll plainLibrary
      [.fgetc]
    let after := (before.ungetc 120).2
    (before.ungetc 120).1 = some 120 /\ (after.fgetcs 3).1 = 120 :: (before.fgetcs 2).1 /\
      (after.freadInternal 1 2).1.2 = 120 :: (before.freadInternal 1 1).1.2 /\
      after.ftell.1 = before.ftell.1 - 1 := by
  intro before after
  have start : Opened (openStream .full 4 (fun _ => 0) ⟨[1, 2, 3], 0, false⟩) :=
    ⟨rfl, by decide, rfl, rfl, rfl⟩
  obtain ⟨bytes, -, blocks, places⟩ :=
    Iob.ungetc_delivers_iff plainLibrary start [.fgetc] 120 (by decide)
  refine ⟨by decide, bytes 2, (blocks 1 2 (by decide) (by decide) (by decide)).mpr ?_,
    (places 3 3 rfl rfl).mpr ⟨rfl, by decide⟩⟩
  intro none
  exact absurd none (by decide)

/-- `fread` of an unbuffered stream passes over the character, and output that
is pending moves the position. -/
theorem ungetc_passed_over :
    let opened := openStream .full 4 (fun _ => 0) ⟨[1, 2, 3], 0, false⟩
    let unbuffered := opened.performAll plainLibrary [.setvbuf none 2 0 none, .fgetc]
    let pending := opened.performAll plainLibrary [.fgetc, .fwrite (fun _ => 9) 1 1]
    (unbuffered.ungetc 120).1 = some 120 /\
      ((unbuffered.ungetc 120).2.freadInternal 1 1).1.2 = [2] /\
      (pending.ungetc 120).1 = some 120 /\
      (pending.ungetc 120).2.ftell.1 = 1 /\ pending.ftell.1 = 1 := by
  decide

end Clib4.Stdio
