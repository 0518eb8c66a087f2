import Clib4.Stdio.ShortReads

namespace Clib4.Stdio

open Foundation List

/-!
# Lines in memory that grows

`getdelim.c`.  Each round of the loop makes room, reads a byte and stores it;
behind the loop a `NUL` is stored.  `room` is the number of bytes that really
are allocated, which the program knows as `*n`, and every store is recorded
with the room there was.  A `realloc` may fail, and new memory may hold
anything.
-/

namespace Getdelim

/-- `*lineptr` and `*n`, and the bytes that are allocated. -/
structure Line where
  block : Option Block
  n : Nat
  room : Nat

namespace Line

/-- `realloc`, where `granted` is what fresh memory holds, if there is any. -/
def realloc (size : Nat) (granted : Option Block) (line : Line) : Option Line :=
  granted.map fun fresh =>
    { block := some (match line.block with
        | none => fresh
        | some old => fun addr => if addr < line.room then old addr else fresh addr)
      n := size
      room := size }

/-- `ptr[index] = c`. -/
def put (idx : Nat) (c : UInt8) (line : Line) : Line :=
  { line with block := line.block.map fun memory => memory.store idx [c] }

end Line

/-- What a call did: its result, the line, the places stored to with the room
there was, and the stream. -/
structure Outcome (δ : Type) where
  result : Int
  line : Line
  stores : List (Nat × Nat)
  stream : Iob δ

/-- The head of a round: `size` and the line with at least three bytes left, or
what doubling gives. -/
def makeRoom (size len : Nat) (granted : Option Block) (line : Line) : Option (Nat × Line) :=
  if Iob.sizeT (size + (2 ^ 32 - len)) <= 2 then
    let size := if size ≠ 0 then Iob.sizeT (size * 2) else 256
    (line.realloc size granted).map fun line => (size, line)
  else some (size, line)

/-- The end of `getdelim`: `ptr[len] = '\0'`, and `len` as a `ssize_t`. -/
def finish {δ : Type} (len : Nat) (line : Line) (stores : List (Nat × Nat)) (stream : Iob δ) :
    Outcome δ :=
  ⟨toLong len, line.put len 0, stores ++ [(len, line.room)], stream⟩

variable {δ : Type} [Action δ]

/-- The loop of `getdelim`; `grants len` is what `realloc` answers in the round
with `len` bytes stored. -/
def loop (delimiter : Int) (grants : Nat -> Option Block) :
    Nat -> Nat -> Nat -> Line -> List (Nat × Nat) -> Iob δ -> Option (Outcome δ)
  | 0, _, _, _, _, _ => none
  | fuel + 1, size, len, line, stores, stream =>
    match makeRoom size len (grants len) line with
    | none => some ⟨-1, line, stores, stream⟩
    | some (size, line) =>
      match stream.fgetc with
      | (none, stream) =>
        if len = 0 \/ stream.error then some ⟨-1, line, stores, stream⟩
        else some (finish len line stores stream)
      | (some c, stream) =>
        if (c.toNat : Int) = delimiter then
          some (finish (Iob.sizeT (len + 1)) (line.put len c)
            (stores ++ [(len, line.room)]) stream)
        else
          loop delimiter grants fuel size (Iob.sizeT (len + 1)) (line.put len c)
            (stores ++ [(len, line.room)]) stream

/-- `getdelim`, if it ends within `fuel` rounds. -/
def getdelim (fuel : Nat) (delimiter : Int) (grants : Nat -> Option Block) (line : Line)
    (stream : Iob δ) : Option (Outcome δ) :=
  loop delimiter grants fuel (if line.block.isSome then line.n else 0) 0 line [] stream

/-! ## Segments -/

def segment (delimiter : Int) : List UInt8 -> List UInt8
  | [] => []
  | c :: rest => if (c.toNat : Int) = delimiter then [c] else c :: segment delimiter rest

theorem segment_eq_nil_iff {delimiter : Int} {bytes : List UInt8} :
    segment delimiter bytes = [] <-> bytes = [] := by
  cases bytes with
  | nil => exact iff_of_true rfl rfl
  | cons c rest =>
    rw [segment]
    split <;> simp

def Delimited (delimiter : Int) (bytes : List UInt8) : Prop :=
  ∃ c ∈ bytes, (c.toNat : Int) = delimiter

instance (delimiter : Int) (bytes : List UInt8) : Decidable (Delimited delimiter bytes) :=
  inferInstanceAs (Decidable (∃ c ∈ bytes, (c.toNat : Int) = delimiter))

variable (delimiter : Int)

theorem delimited_cons (c : UInt8) (rest : List UInt8) :
    Delimited delimiter (c :: rest) <-> (c.toNat : Int) = delimiter \/ Delimited delimiter rest := by
  unfold Delimited
  simp

/-- The rounds that reading a segment takes: without a delimiter there is one
more, which finds the end of the file. -/
def rounds (delimiter : Int) (bytes : List UInt8) : Nat :=
  if Delimited delimiter bytes then (segment delimiter bytes).length
  else (segment delimiter bytes).length + 1

theorem rounds_cons {delimiter : Int} {c : UInt8} (other : ¬ (c.toNat : Int) = delimiter)
    (rest : List UInt8) : rounds delimiter (c :: rest) = rounds delimiter rest + 1 := by
  have same : Delimited delimiter (c :: rest) <-> Delimited delimiter rest := by
    rw [delimited_cons]
    exact ⟨fun either => either.resolve_left other, Or.inr⟩
  unfold rounds
  rw [segment, if_neg other, length_cons]
  by_cases found : Delimited delimiter rest
  · rw [if_pos found, if_pos (same.mpr found)]
  · rw [if_neg found, if_neg (fun found' => found (same.mp found'))]

theorem rounds_pos (bytes : List UInt8) : 0 < rounds delimiter bytes := by
  unfold rounds
  split
  · rename_i found
    obtain ⟨c, mem, -⟩ := found
    cases bytes with
    | nil => cases mem
    | cons d rest =>
      rw [segment]
      split
      · exact Nat.one_pos
      · exact Nat.succ_pos _
  · exact Nat.succ_pos _

/-! ## Sizes -/

def grow (size len : Nat) : Nat :=
  if size - len <= 2 then if size ≠ 0 then size * 2 else 256 else size

def capacity (initial : Nat) : Nat -> Nat
  | 0 => initial
  | round + 1 => grow (capacity initial round) round

theorem le_grow (size len : Nat) : size <= grow size len := by
  unfold grow
  split
  · split
    · omega
    · omega
  · exact Nat.le_refl size

variable {bytes : List UInt8} {size : Nat}

theorem grow_room {len : Nat} (bound : len < size \/ (len = 0 /\ size = 0)) :
    len + 2 <= grow size len := by
  unfold grow
  split
  · split
    · omega
    · omega
  · omega

theorem capacity_mono {initial first second : Nat} (le : first <= second) :
    capacity initial first <= capacity initial second := by
  induction second with
  | zero =>
    have zero := Nat.le_zero.mp le
    rw [zero]
  | succ second ih =>
    rcases Nat.lt_or_eq_of_le le with less | rfl
    · exact (ih (Nat.le_of_lt_succ less)).trans (le_grow _ _)
    · exact Nat.le_refl _

/-- The sizes that reading a segment asks for and the length that is returned
fit their types. -/
structure SizesFit (delimiter : Int) (initial : Nat) (bytes : List UInt8) : Prop where
  capacity : capacity initial (rounds delimiter bytes) < 2 ^ 32
  length : (segment delimiter bytes).length < 2 ^ 31

/-! ## The line -/

/-- The line between two rounds: it holds the bytes read so far and has the
size the loop knows. -/
structure Holds (size : Nat) (bytes : List UInt8) (line : Line) : Prop where
  known : line.n = line.room
  missing : line.block = none -> size = 0 /\ bytes = []
  present : line.block ≠ none -> line.room = size
  content : ∀ memory, line.block = some memory -> memory.load 0 bytes.length = bytes
  bound : bytes.length < size \/ (bytes.length = 0 /\ size = 0)

theorem put_held {memory : Block} (held : memory.load 0 bytes.length = bytes) {c : UInt8} :
    ∃ memory', (Line.mk (some memory) size size).put bytes.length c =
        ⟨some memory', size, size⟩ /\ memory'.load 0 (bytes ++ [c]).length = bytes ++ [c] := by
  refine ⟨memory.store bytes.length [c], rfl, ?_⟩
  have appended := Block.load_store_append memory 0 bytes.length [c]
  rw [Int.zero_add, held] at appended
  rw [length_append]
  exact appended

theorem finish_held {δ : Type} {memory : Block} (held : memory.load 0 bytes.length = bytes)
    (room : bytes.length < size) {stores : List (Nat × Nat)}
    (safe : ∀ store ∈ stores, store.1 < store.2) {stream : Iob δ} :
    ∃ memory' stores', finish bytes.length ⟨some memory, size, size⟩ stores stream =
        ⟨toLong bytes.length, ⟨some memory', size, size⟩, stores', stream⟩ /\
      memory'.load 0 (bytes.length + 1) = bytes ++ [0] /\
      ∀ store ∈ stores', store.1 < store.2 := by
  obtain ⟨memory', stored, held'⟩ := put_held held
  rw [length_append] at held'
  refine ⟨memory', stores ++ [(bytes.length, size)], ?_, held', ?_⟩
  · unfold finish
    rw [stored]
  · intro store mem
    rcases mem_append.mp mem with old | new
    · exact safe store old
    · rw [mem_singleton.mp new]
      exact room

theorem Holds.makeRoom {line : Line} (holds : Holds size bytes line)
    (fits : grow size bytes.length < 2 ^ 32) (granted : Option Block) :
    (granted = none /\ makeRoom size bytes.length granted line = none) \/
    (∃ memory, memory.load 0 bytes.length = bytes /\ makeRoom size bytes.length granted line =
        some (grow size bytes.length, ⟨some memory, grow size bytes.length,
          grow size bytes.length⟩)) := by
  have le := le_grow size bytes.length
  have bound := holds.bound
  have left : Iob.sizeT (size + (2 ^ 32 - bytes.length)) = size - bytes.length := by
    unfold Iob.sizeT
    omega
  unfold Getdelim.makeRoom
  rw [left]
  by_cases tight : size - bytes.length <= 2
  · have grown : (if size ≠ 0 then Iob.sizeT (size * 2) else 256) = grow size bytes.length := by
      unfold grow at fits ⊢
      rw [if_pos tight] at fits ⊢
      split
      · rename_i some
        rw [if_pos some] at fits
        exact Nat.mod_eq_of_lt fits
      · rfl
    rw [if_pos tight]
    rw [grown]
    cases granted with
    | none => exact Or.inl ⟨rfl, rfl⟩
    | some fresh =>
      right
      refine ⟨_, ?_, rfl⟩
      cases blockEq : line.block with
      | none =>
        rw [(holds.missing blockEq).2]
        rfl
      | some old =>
        have room := holds.present (by rw [blockEq]; simp)
        have held := holds.content old blockEq
        have same : Block.load (fun addr : Int =>
            if addr < line.room then old addr else fresh addr) 0 bytes.length =
            old.load 0 bytes.length := by
          apply ext_getElem?
          intro idx
          rw [Block.getElem?_load, Block.getElem?_load]
          by_cases inside : idx < bytes.length
          · rw [if_pos inside, if_pos inside, if_pos (by omega)]
          · rw [if_neg inside, if_neg inside]
        exact same.trans held
  · right
    rw [if_neg tight]
    have same : grow size bytes.length = size := if_neg tight
    rcases line with ⟨_ | memory, n, room⟩
    · have none := (holds.missing rfl).1
      omega
    · have known : n = room := holds.known
      have present : room = size := holds.present (by simp)
      exact ⟨memory, holds.content memory rfl, by rw [same, known, present]⟩

/-! ## The loop -/

/-- What reading a segment leads to. -/
structure Reads (delimiter : Int) (before : List UInt8) (array : ByteFile)
    (outcome : Outcome Source) : Prop where
  result : outcome.result =
    toLong ((before.length + (segment delimiter array.rest).length : Nat) : Int)
  line : ∃ memory, outcome.line.block = some memory /\
    memory.load 0 (before.length + (segment delimiter array.rest).length + 1) =
      before ++ segment delimiter array.rest ++ [0]
  room : before.length + (segment delimiter array.rest).length < outcome.line.n
  stream : Ahead (array.advance (segment delimiter array.rest).length) outcome.stream

/-- Nothing fails while the segment is read, and no error is marked from before. -/
structure Undisturbed (delimiter : Int) (array : ByteFile) (stream : Iob Source) : Prop where
  reliable : stream.device.Reliable
  clean : stream.error = false
  flushes : ∀ k, stream.served = some k -> (segment delimiter array.rest).length <= k

/-- What the loop comes to with `bytes` stored: every store was within the room, `*n` is the
room, and if nothing fails the rest of the segment is read. -/
structure Ends (delimiter : Int) (grants : Nat -> Option Block) (bytes : List UInt8)
    (array : ByteFile) (stream : Iob Source) (outcome : Outcome Source) : Prop where
  safe : ∀ store ∈ outcome.stores, store.1 < store.2
  known : outcome.line.n = outcome.line.room
  reads : (∀ round, grants round ≠ none) -> Undisturbed delimiter array stream ->
    if bytes ≠ [] \/ array.rest ≠ [] then Reads delimiter bytes array outcome
    else outcome.result = -1

section

variable {delimiter : Int} {array : ByteFile} {stream next : Iob Source}

/-- A byte is read and leaves the stream undisturbed; or none is, and then the file has
ended unless something failed. -/
theorem fgetc_cases (delimiter : Int) (ahead : Ahead array stream) :
    (∃ c rest next, array.rest = c :: rest /\ stream.fgetc = (some c, next) /\
      Ahead (array.advance 1) next /\ (¬ (c.toNat : Int) = delimiter ->
        Undisturbed delimiter array stream -> Undisturbed delimiter (array.advance 1) next)) \/
    (∃ next, stream.fgetc = (none, next) /\ (Undisturbed delimiter array stream ->
        array.rest = [] /\ Ahead array next /\ next.error = false)) := by
  rw [Iob.fgetc, ahead.ready.fgetcCheck]
  rcases ahead.getc with ⟨next, got, after, error, still⟩ | ⟨next, got, stays, failed | flush⟩
  · cases restEq : array.rest with
    | nil =>
      rw [Plain.fgetc_of_nil restEq] at got after
      exact Or.inr ⟨next, got, fun calm => ⟨rfl, after, error.trans calm.clean⟩⟩
    | cons c rest =>
      rw [Plain.fgetc_of_cons restEq] at got after
      obtain ⟨served, -, -⟩ := Iob.served_of_some ahead.ready ahead.windowed got
      refine Or.inl ⟨c, rest, next, rfl, got, after, fun other calm => ?_⟩
      refine ⟨still calm.reliable, error.trans calm.clean, fun k some => ?_⟩
      rw [some] at served
      have enough := calm.flushes (k + 1) served
      rw [restEq, segment, if_neg other] at enough
      rw [ByteFile.rest_advance_one restEq]
      exact Nat.le_of_succ_le_succ enough
  · exact Or.inr ⟨next, got, fun calm => (failed.2.2 calm.reliable).elim⟩
  · refine Or.inr ⟨next, got, fun calm => ⟨?_, stays, flush.2.trans calm.clean⟩⟩
    exact segment_eq_nil_iff.mp (length_eq_zero_iff.mp (Nat.le_zero.mp
      (calm.flushes 0 flush.1)))

variable {grants : Nat -> Option Block} {bytes : List UInt8} {memory : Block} {size : Nat}
  {stores : List (Nat × Nat)} {c : UInt8} {rest : List UInt8}

/-- No byte came: the result is -1 or what is stored. -/
theorem ends_at_end (held : memory.load 0 bytes.length = bytes) (room : bytes.length < size)
    (safe : ∀ store ∈ stores, store.1 < store.2)
    (ended : Undisturbed delimiter array stream ->
      array.rest = [] /\ Ahead array next /\ next.error = false) :
    ∃ outcome, (if bytes.length = 0 \/ next.error then
          some ⟨-1, ⟨some memory, size, size⟩, stores, next⟩
        else some (finish bytes.length ⟨some memory, size, size⟩ stores next)) = some outcome /\
      Ends delimiter grants bytes array stream outcome := by
  by_cases gives : bytes.length = 0 \/ next.error
  · rw [if_pos gives]
    refine ⟨_, rfl, safe, rfl, fun _ calm => ?_⟩
    obtain ⟨nothing, -, clean⟩ := ended calm
    have none := length_eq_zero_iff.mp (gives.resolve_right (by simp [clean]))
    rw [none, nothing, if_neg (by simp)]
  · rw [if_neg gives]
    obtain ⟨final, stores', finished, held', safe'⟩ := finish_held held room safe
    rw [finished]
    refine ⟨_, rfl, safe', rfl, fun _ calm => ?_⟩
    obtain ⟨nothing, after, -⟩ := ended calm
    have some : bytes ≠ [] := fun none => gives (Or.inl (by rw [none]; rfl))
    have empty := (@segment_eq_nil_iff delimiter _).mpr nothing
    rw [if_pos (Or.inl some)]
    refine ⟨?_, ⟨final, rfl, ?_⟩, ?_, ?_⟩
    all_goals rw [empty]
    · rfl
    · simpa using held'
    · exact room
    · exact after

/-- The delimiter came, and ends the segment. -/
theorem ends_at_delimiter (held : memory.load 0 (bytes ++ [c]).length = bytes ++ [c])
    (room : (bytes ++ [c]).length < size) (safe : ∀ store ∈ stores, store.1 < store.2)
    (restEq : array.rest = c :: rest) (ends : (c.toNat : Int) = delimiter)
    (after : Ahead (array.advance 1) next) :
    Ends delimiter grants bytes array stream
      (finish (bytes ++ [c]).length ⟨some memory, size, size⟩ stores next) := by
  have single : segment delimiter array.rest = [c] := by
    rw [restEq, segment, if_pos ends]
  obtain ⟨final, stores', finished, held', safe'⟩ := finish_held held room safe
  rw [finished]
  refine ⟨safe', rfl, fun _ _ => ?_⟩
  rw [if_pos (Or.inr (by rw [restEq]; simp))]
  rw [length_append] at held' room ⊢
  refine ⟨?_, ⟨final, rfl, ?_⟩, ?_, ?_⟩
  all_goals rw [single]
  · exact held'
  · exact room
  · exact after

/-- Another byte came: the segment has one more. -/
theorem Ends.cons (restEq : array.rest = c :: rest) (other : ¬ (c.toNat : Int) = delimiter)
    (still : Undisturbed delimiter array stream -> Undisturbed delimiter (array.advance 1) next)
    {outcome : Outcome Source}
    (later : Ends delimiter grants (bytes ++ [c]) (array.advance 1) next outcome) :
    Ends delimiter grants bytes array stream outcome := by
  refine ⟨later.safe, later.known, fun granted calm => ?_⟩
  have read := later.reads granted (still calm)
  have behind := ByteFile.rest_advance_one restEq
  have longer : segment delimiter array.rest = c :: segment delimiter rest := by
    rw [restEq, segment, if_neg other]
  have total : (bytes ++ [c]).length + (segment delimiter rest).length =
      bytes.length + (segment delimiter array.rest).length := by
    rw [longer, length_cons, length_append, length_singleton]
    omega
  rw [if_pos (Or.inl (by simp))] at read
  rw [if_pos (Or.inr (by rw [restEq]; simp))]
  obtain ⟨value, ⟨block, blockEq, content⟩, space, final⟩ := read
  rw [behind] at value content space final
  rw [total] at value content space
  refine ⟨value, ⟨block, blockEq, ?_⟩, space, ?_⟩
  · rw [content, longer]
    simp
  · rw [longer, length_cons, Nat.add_comm, <- ByteFile.advance_advance]
    exact final

end

theorem loop_reads (grants : Nat -> Option Block) (initial : Nat) (fuel : Nat)
    (bytes : List UInt8) (line : Line) (stores : List (Nat × Nat)) (array : ByteFile)
    (stream : Iob Source) (ahead : Ahead array stream)
    (holds : Holds (capacity initial bytes.length) bytes line)
    (fits : capacity initial (bytes.length + rounds delimiter array.rest) < 2 ^ 32)
    (safe : ∀ store ∈ stores, store.1 < store.2) (enough : array.rest.length < fuel) :
    ∃ outcome,
      loop delimiter grants fuel (capacity initial bytes.length) bytes.length line stores stream =
        some outcome /\ Ends delimiter grants bytes array stream outcome := by
  induction fuel generalizing bytes line stores array stream with
  | zero => exact (Nat.not_lt_zero _ enough).elim
  | succ fuel ih =>
    have pos := rounds_pos delimiter array.rest
    have grown : grow (capacity initial bytes.length) bytes.length < 2 ^ 32 := by
      refine lt_of_le_of_lt ?_ fits
      exact @capacity_mono initial (bytes.length + 1) _ (by omega)
    have room := grow_room holds.bound
    rw [loop]
    rcases holds.makeRoom grown (grants bytes.length) with
      ⟨refused, failed⟩ | ⟨memory, held, made⟩
    · rw [failed]
      exact ⟨_, rfl, safe, holds.known, fun granted => (granted _ refused).elim⟩
    rw [made]
    dsimp only
    rcases fgetc_cases delimiter ahead with
      ⟨c, rest, next, restEq, got, after, still⟩ | ⟨next, got, ended⟩
    · rw [got]
      dsimp only
      obtain ⟨memory', stored, held'⟩ := put_held held
      have longer : (bytes ++ [c]).length = bytes.length + 1 := by simp
      have len : Iob.sizeT (bytes.length + 1) = (bytes ++ [c]).length := by
        rw [longer]
        exact Nat.mod_eq_of_lt (by omega)
      have safe' : ∀ store ∈ stores ++ [(bytes.length,
          grow (capacity initial bytes.length) bytes.length)], store.1 < store.2 := by
        intro store mem
        rcases mem_append.mp mem with old | new
        · exact safe store old
        · rw [mem_singleton.mp new]
          omega
      rw [stored, len]
      by_cases ends : (c.toNat : Int) = delimiter
      · rw [if_pos ends]
        exact ⟨_, rfl, ends_at_delimiter held' (by omega) safe' restEq ends after⟩
      · rw [if_neg ends]
        have behind := ByteFile.rest_advance_one restEq
        have steps : bytes.length + 1 + rounds delimiter rest =
            bytes.length + rounds delimiter array.rest := by
          rw [restEq, rounds_cons ends]
          omega
        have size : capacity initial (bytes ++ [c]).length =
            grow (capacity initial bytes.length) bytes.length := by
          rw [longer]
          rfl
        have holds' : Holds (capacity initial (bytes ++ [c]).length) (bytes ++ [c])
            ⟨some memory', capacity initial (bytes ++ [c]).length,
              capacity initial (bytes ++ [c]).length⟩ := by
          refine ⟨rfl, fun none => (by cases none), fun _ => rfl, ?_, Or.inl ?_⟩
          · intro block same
            cases same
            exact held'
          · omega
        rw [<- size] at safe' ⊢
        obtain ⟨outcome, looped, later⟩ := ih (bytes ++ [c]) _ _ (array.advance 1) next after holds'
          (by rwa [longer, behind, steps]) safe' (by
            rw [behind]
            rw [restEq, length_cons] at enough
            omega)
        exact ⟨outcome, looped, later.cons restEq ends (still ends)⟩
    · rw [got]
      exact ends_at_end held (by omega) safe ended

/--
Whatever a file holds, whatever its pieces are, for every delimiter and every
line whose capacity is known, as long as the sizes fit: `getdelim` ends, stores
below the capacity only and leaves `*n` the capacity.  If memory is granted
and nothing fails, it returns the length of the next segment and leaves the
segment and a `NUL`, with the stream behind it; but where nothing is left it
returns -1.
-/
theorem getdelim_reads_segment {array : ByteFile} {stream : Iob Source}
    (ahead : Ahead array stream) (delimiter : Int) (grants : Nat -> Option Block) {line : Line}
    (known : line.n = line.room) (missing : line.block = none -> line.n = 0)
    (fits : SizesFit delimiter line.n array.rest) {fuel : Nat}
    (enough : array.rest.length < fuel) :
    let length := (segment delimiter array.rest).length
    ∃ outcome, getdelim fuel delimiter grants line stream = some outcome /\
      (∀ store ∈ outcome.stores, store.1 < store.2) /\
      outcome.line.n = outcome.line.room /\
      ((∀ round, grants round ≠ none) -> Undisturbed delimiter array stream ->
        if array.rest ≠ [] then
          outcome.result = length /\ length < outcome.line.n /\
            (∃ memory, outcome.line.block = some memory /\
              memory.load 0 (length + 1) = segment delimiter array.rest ++ [0]) /\
            Ahead (array.advance length) outcome.stream
        else outcome.result = -1) := by
  intro length
  have size : (if line.block.isSome then line.n else 0) = capacity line.n 0 := by
    split
    · rfl
    · rename_i null
      exact (missing (by simpa using null)).symm
  have holds : Holds (capacity line.n 0) [] line := by
    refine ⟨known, fun null => ⟨missing null, rfl⟩, fun _ => known.symm, fun _ _ => rfl, ?_⟩
    change 0 < line.n \/ (0 = 0 /\ line.n = 0)
    omega
  have rounds : capacity line.n (0 + rounds delimiter array.rest) < 2 ^ 32 := by
    rw [Nat.zero_add]
    exact fits.capacity
  obtain ⟨outcome, looped, safe, known', reads⟩ := loop_reads delimiter grants line.n fuel [] line
    [] array stream ahead holds rounds (fun _ mem => by cases mem) enough
  refine ⟨outcome, ?_, safe, known', fun granted calm => ?_⟩
  · rw [getdelim, size]
    exact looped
  · have read := reads granted calm
    simp only [ne_eq, not_true_eq_false, false_or] at read
    by_cases some : array.rest ≠ []
    · rw [if_pos some] at read ⊢
      obtain ⟨value, ⟨memory, block, content⟩, room, final⟩ := read
      rw [length_nil, Nat.zero_add] at value content room
      have bound := fits.length
      refine ⟨?_, room, ⟨memory, block, content⟩, final⟩
      rw [value]
      refine toLong_of_fits ?_ ?_
      · unfold longMin
        omega
      · unfold longMax
        omega
    · rw [if_neg some] at read ⊢
      exact read

/-- A line of three bytes into memory that is yet to be allocated, on a line buffered stream:
the flushes in front of its two reads succeed, and the next one fails. -/
theorem getdelim_reads_first_line :
    let stream := openSource .line 2 (fun _ => 0)
      ⟨⟨[97, 98, 10, 99], 0, false⟩, [], [true, true, false], true⟩
    ∃ outcome, getdelim 5 10 (fun _ => some fun _ => 0) ⟨none, 0, 0⟩ stream = some outcome /\
      outcome.result = 3 := by
  intro stream
  have fits : SizesFit 10 0 [97, 98, 10, 99] := ⟨by decide, by decide⟩
  have served : stream.served = some 4 := by decide
  have calm : Undisturbed 10 ⟨[97, 98, 10, 99], 0, false⟩ stream := by
    refine ⟨⟨rfl, not_mem_nil⟩, rfl, fun k some => ?_⟩
    cases served.symm.trans some
    decide
  obtain ⟨outcome, ends, -, -, reads⟩ := getdelim_reads_segment
    (ahead_openSource .line (show 0 < 2 by decide) (fun _ => 0)
      ⟨⟨[97, 98, 10, 99], 0, false⟩, [], [true, true, false], true⟩)
    10 (fun _ => some fun _ => 0) (show (Line.mk none 0 0).n = 0 from rfl) (fun _ => rfl) fits
    (show ([97, 98, 10, 99] : List UInt8).length < 5 by decide)
  have result := reads (fun _ none => by cases none) calm
  exact ⟨outcome, ends, result.1⟩

/-- At the end of the file the next segment is empty, and the result is -1. -/
theorem getdelim_at_end :
    let stream := openSource .full 2 (fun _ => 0) ⟨⟨[], 0, false⟩, [], [], true⟩
    (getdelim 1 10 (fun _ => some fun _ => 0) ⟨none, 0, 0⟩ stream).map Outcome.result = some (-1) /\
      (segment 10 []).length = 0 := by
  decide

end Getdelim

end Clib4.Stdio
