import Clib4.Stdio.BlockInput
import Clib4.Stdio.SeekAfterPushBack

namespace Clib4.Stdio

open Foundation List

/-!
# Blocks of little-endian streams

`fread` on a stream in little-endian mode reverses one element, the first,
and only if the whole request is of 2, 4 or 8 bytes; whether that element was
read is not asked.  A descriptor in little-endian mode reverses a request that
it answers in full, once more.
-/

/-- The element of a sequence of bytes with the given number. -/
def element (size idx : Nat) (bytes : List UInt8) : List UInt8 :=
  (bytes.drop (idx * size)).take size

theorem element_reverse {size idx count : Nat} {bytes : List UInt8}
    (length : bytes.length = size * count) (inside : idx < count) :
    element size idx bytes.reverse = (element size (count - 1 - idx) bytes).reverse := by
  obtain ⟨rest, rfl⟩ := Nat.exists_eq_add_of_lt inside
  have before : idx + rest + 1 - 1 - idx = rest := by omega
  have total : bytes.length = idx * size + rest * size + size := by
    rw [length]
    ring
  have first : bytes.length - idx * size = rest * size + size := by omega
  have kept : (bytes.take (rest * size + size)).length = rest * size + size := by
    rw [length_take]
    omega
  rw [before]
  unfold element
  rw [drop_reverse, first, take_reverse, kept, Nat.add_sub_cancel, drop_take,
    Nat.add_sub_cancel_left]

theorem element_load (block : Block) {size idx count : Nat}
    (inside : (idx + 1) * size <= count) :
    element size idx (block.load 0 count) = block.load ((idx * size : Nat) : Int) size := by
  rw [Nat.succ_mul] at inside
  unfold element
  rw [Block.drop_load _ _ (by omega), Block.take_load _ _ (by omega), Int.zero_add]

namespace Iob

/-! ## What is read -/

def afterCheck (file : Iob Source) : Iob Source :=
  file.settledOn file.settlement.2.1 file.settlement.2.2

def own (file : Iob Source) : List UInt8 :=
  file.afterCheck.standing.rest

/-- The bytes that `fread` takes from the file, in the order of the file. -/
def transferred (elementSize count : Nat) (file : Iob Source) : List UInt8 :=
  if file.inUse /\ file.canRead /\ 0 < count /\ elementSize * count < 2 ^ 32 then
    if file.afterCheck.Direct (elementSize * count) then
      file.afterCheck.device.file.rest.take
        ((file.afterCheck.device.descriptorAllowance (elementSize * count)).getD 0)
    else (file.afterCheck.getcs (elementSize * count)).1
  else []

def DescriptorSwaps (elementSize count : Nat) (file : Iob Source) : Prop :=
  file.afterCheck.Direct (elementSize * count) /\ file.descriptorLittleEndian /\
    (file.transferred elementSize count).length = elementSize * count

instance (elementSize count : Nat) (file : Iob Source) :
    Decidable (file.DescriptorSwaps elementSize count) :=
  inferInstanceAs (Decidable (_ /\ _ /\ _))

def handed (elementSize count : Nat) (file : Iob Source) : List UInt8 :=
  if file.DescriptorSwaps elementSize count then byteswap (file.transferred elementSize count)
  else file.transferred elementSize count

theorem length_handed (elementSize count : Nat) (file : Iob Source) :
    (file.handed elementSize count).length = (file.transferred elementSize count).length := by
  unfold handed
  split
  · exact length_byteswap _
  · rfl

theorem settlement_none (file : Iob Source) :
    file.settlement = (none, file.settlement.2.1, file.settlement.2.2) := by
  obtain ⟨pending, settled⟩ := file.settlement_eq
  rw [settled]

variable {file : Iob Source}

variable {elementSize count : Nat}

theorem descriptorBytes_handed (inUse : file.inUse)
    (canRead : file.canRead) (posSize : 0 < elementSize)
    (posCount : 0 < count) (fits : elementSize * count < 2 ^ 32)
    (direct : file.afterCheck.Direct (elementSize * count)) :
    file.descriptorBytes (elementSize * count) = file.handed elementSize count := by
  have pos := Nat.mul_pos posSize posCount
  have taken : file.transferred elementSize count = file.afterCheck.device.file.rest.take
        ((file.afterCheck.device.descriptorAllowance (elementSize * count)).getD 0) := by
    rw [transferred, if_pos ⟨inUse, canRead, posCount, fits⟩, if_pos direct]
  have swaps : file.DescriptorSwaps elementSize count <-> file.descriptorLittleEndian /\
        (file.transferred elementSize count).length = elementSize * count :=
    ⟨fun all => all.2, fun rest => ⟨direct, rest⟩⟩
  have device : (file.settledOn file.settlement.2.1 0).device = file.afterCheck.device := rfl
  have order : (file.settledOn file.settlement.2.1 0).descriptorLittleEndian =
      file.descriptorLittleEndian := rfl
  -- where the read fails, nothing is stored
  have nothing : file.afterCheck.device.descriptorAllowance (elementSize * count) = none ->
      file.handed elementSize count = [] := by
    intro failure
    rw [<- length_eq_zero_iff, length_handed, taken, failure]
    rfl
  unfold descriptorBytes
  by_cases readable : file.afterCheck.device.readable
  swap
  · have closed : Action.mayRead (file.settledOn file.settlement.2.1 0).device = false :=
      Bool.eq_false_iff.mpr readable
    rw [readDescriptor, if_pos closed, nothing (if_neg readable)]
    rfl
  rw [readDescriptor_eq (show Action.mayRead (file.settledOn file.settlement.2.1 0).device
    from readable), if_neg (Nat.ne_of_gt pos), device, order]
  cases allowed : file.afterCheck.device.allowance (elementSize * count) with
  | none =>
    have answer : Action.read file.afterCheck.device (elementSize * count) = _ :=
      Source.read_of_failure allowed
    rw [answer, nothing ((if_pos readable).trans allowed)]
    rfl
  | some limit =>
    have answer : Action.read file.afterCheck.device (elementSize * count) = _ :=
      Source.read_of_allowance allowed
    have read : (file.afterCheck.device.file.read limit).1 = file.transferred elementSize count := by
      rw [taken, Source.descriptorAllowance, if_pos readable, allowed]
      rfl
    rw [answer]
    dsimp only
    rw [read]
    unfold handed
    by_cases swap : file.DescriptorSwaps elementSize count
    · rw [if_pos swap, if_pos (swaps.mp swap)]
      rfl
    · rw [if_neg swap, if_neg (fun both => swap (swaps.mpr both))]
      rfl

/-- Of a stream in step with its file the bytes are the file's next ones. -/
theorem transferred_own (ahead : Ahead file.afterCheck.standing file.afterCheck)
    (unbuffered : file.bufferMode = .none -> file.afterCheck.bufferPosition =
      file.afterCheck.bufferReadBytes) {elementSize count : Nat} :
    file.transferred elementSize count <+: file.own := by
  have single : ∀ (n : Nat) {array : ByteFile} {stream : Iob Source}, Ahead array stream ->
      (stream.getcs n).1 <+: array.rest := by
    intro n
    induction n with
    | zero => exact fun _ => nil_prefix
    | succ n ih =>
      intro array stream ahead
      rw [getcs]
      rcases ahead.getc with ⟨next, got, after, -⟩ | ⟨next, got, -⟩
      · rw [got]
        cases restEq : array.rest with
        | nil =>
          have plain := Plain.fgetc_of_nil restEq
          simp only [plain, nil_prefix]
        | cons c rest =>
          have plain := Plain.fgetc_of_cons restEq
          have behind := ByteFile.rest_advance_one restEq
          rw [plain] at after ⊢
          have tail := ih after
          rw [behind] at tail
          exact cons_prefix_cons.mpr ⟨rfl, tail⟩
      · rw [got]
        exact nil_prefix
  unfold transferred own
  split
  · split
    · rename_i direct
      have usedUp : file.afterCheck.bufferPosition = file.afterCheck.bufferReadBytes := by
        rcases direct with none | bypass
        · exact unbuffered none
        · rw [ahead.windowed.position_of_empty bypass.1, bypass.1]
      rw [ahead.device_of_used_up usedUp]
      exact take_prefix _ _
    · exact single _ ahead
  · exact nil_prefix

theorem freadInternal_handed (file : Iob Source)
    (posSize : 0 < elementSize) (size : count < 2 ^ 32) :
    (file.freadInternal elementSize count).1 =
      ((file.handed elementSize count).length / elementSize, file.handed elementSize count) := by
  -- where nothing is read, nothing is stored
  have empty : file.transferred elementSize count = [] ->
      ((file.handed elementSize count).length / elementSize, file.handed elementSize count) =
        (0, []) := by
    intro nothing
    have handed : file.handed elementSize count = [] := by
      rw [<- length_eq_zero_iff, length_handed, nothing]
      rfl
    rw [handed]
    simp
  by_cases usable : file.inUse /\ file.canRead
  · obtain ⟨inUse, canRead⟩ := usable
    rcases Nat.eq_zero_or_pos count with rfl | posCount
    · rw [empty (if_neg (fun all => Nat.lt_irrefl 0 all.2.2.1))]
      simp [freadInternal, inUse, canRead]
    · by_cases fits : elementSize * count < 2 ^ 32
      · by_cases direct : file.afterCheck.Direct (elementSize * count)
        · rw [freadInternal_direct inUse canRead (by rw [settlement_none]) posSize
            posCount fits direct, descriptorBytes_handed inUse canRead posSize
            posCount fits direct]
        · have buffered : file.bufferMode ≠ .none := fun none => direct (Or.inl none)
          have through : ¬ file.Bypasses (elementSize * count) :=
            fun bypass => direct (Or.inr bypass)
          have ready : file.afterCheck.Ready :=
            ready_of_settlement inUse canRead file.settlement_none
          have same := getcs_unflagged ready
            (show _ = (file.clearerr.settledOn file.settlement.2.1 file.settlement.2.2).unflagged
              from rfl) (elementSize * count)
          have taken : file.handed elementSize count =
              (file.afterCheck.getcs (elementSize * count)).1 := by
            unfold handed
            rw [if_neg (fun swaps => direct swaps.1), transferred,
              if_pos ⟨inUse, canRead, posCount, fits⟩, if_neg direct]
          rw [freadInternal_getcs inUse canRead buffered posSize posCount fits
            file.settlement_none through, taken, same.1]
      · rw [empty (if_neg (fun all => fits all.2.2.2))]
        have wrapped : elementSize ≠ sizeT (elementSize * count) / count := by
          have small : sizeT (elementSize * count) < 2 ^ 32 := Nat.mod_lt _ (by decide)
          have less : sizeT (elementSize * count) / count < elementSize := by
            rw [Nat.div_lt_iff_lt_mul posCount]
            omega
          omega
        unfold freadInternal
        rw [if_neg (by simp [inUse]), if_neg (by simp [canRead])]
        rw [if_pos ⟨posSize, posCount⟩]
        rcases file.clearerr.fgetcCheck with ⟨_ | _, next⟩
        · rfl
        · dsimp only
          rw [if_pos wrapped]
  · rw [freadInternal_unusable usable, empty (if_neg (fun all => usable ⟨all.1, all.2.1⟩))]

/-! ## The swap -/

theorem littleEndian_input (mode : Bool) :
    InputInvariant fun stream : Iob Source => stream.littleEndian = mode where
  marks _ _ _ _ _ now := now
  settles now _ := now
  take now _ := now
  fill _ now _ _ := now
  back _ now _ := now

def SwapsFirst (elementSize count : Nat) : Prop :=
  sizeT (elementSize * count) = 2 \/ sizeT (elementSize * count) = 4 \/
    sizeT (elementSize * count) = 8

instance (elementSize count : Nat) : Decidable (SwapsFirst elementSize count) :=
  inferInstanceAs (Decidable (_ \/ _))

def reverseFirst (size : Nat) (block : Block) : Block :=
  block.store 0 (block.load 0 size).reverse

theorem load_reverseFirst (size : Nat) (block : Block) :
    (reverseFirst size block).load 0 size = (block.load 0 size).reverse := by
  have same := Block.load_store_same block 0 (block.load 0 size).reverse
  rwa [length_reverse, Block.length_load] at same

theorem load_reverseFirst_behind (size : Nat) (block : Block) {idx : Nat} (later : 0 < idx) :
    (reverseFirst size block).load ((idx * size : Nat) : Int) size =
      block.load ((idx * size : Nat) : Int) size := by
  refine Block.load_store_disjoint _ _ _ _ _ (Or.inr ?_)
  have behind := Nat.le_mul_of_pos_left size later
  rw [length_reverse, Block.length_load]
  omega

theorem reverseFirst_outside (size : Nat) (block : Block) {addr : Int}
    (outside : addr < 0 \/ (size : Int) <= addr) :
    reverseFirst size block addr = block addr := by
  refine Block.store_apply_outside _ _ _ _ ?_
  rw [length_reverse, Block.length_load]
  omega

theorem reverseFirst_inside {size : Nat} {block : Block} {addr : Nat} (inside : addr < size) :
    reverseFirst size block (addr : Int) = block ((size - 1 - addr : Nat) : Int) := by
  have idx : ((addr : Int) - 0).toNat = addr := by omega
  unfold reverseFirst
  rw [Block.store_apply, if_pos (Int.natCast_nonneg _), idx, List.getElem?_reverse (by
    rw [Block.length_load]
    exact inside), Block.length_load, Block.getElem?_load, if_pos (by omega), Int.zero_add]
  rfl

theorem fread_little_endian (little : file.littleEndian) (ptr : Block)
    (size : elementSize = 2 \/ elementSize = 4 \/ elementSize = 8) (fits : count < 2 ^ 32) :
    (file.fread ptr elementSize count).1 =
      ((file.transferred elementSize count).length / elementSize,
        if SwapsFirst elementSize count then
          reverseFirst elementSize (ptr.store 0 (file.handed elementSize count))
        else ptr.store 0 (file.handed elementSize count)) := by
  have read := file.freadInternal_handed (show 0 < elementSize by omega) fits
  have mode := (littleEndian_input file.littleEndian).freadInternal rfl elementSize count
  have reverses : ∀ block : Block, byteswap (block.load 0 elementSize) =
      (block.load 0 elementSize).reverse := by
    intro block
    rw [byteswap, if_pos (by rw [Block.length_load]; exact size)]
  unfold fread
  rw [<- length_handed]
  generalize file.freadInternal elementSize count = answer at read mode ⊢
  rcases answer with ⟨⟨elements, stored⟩, next⟩
  cases read
  dsimp only at mode ⊢
  rw [mode, little, reverses]
  by_cases swaps : SwapsFirst elementSize count
  · rw [if_pos swaps, if_pos ⟨rfl, swaps⟩]
    rfl
  · rw [if_neg swaps, if_neg (fun both => swaps both.2)]

/-! ## When every element comes out reversed -/

/-- Complete elements are stored reversed, and nothing behind the bytes read
is changed. -/
structure SwapsElements (file : Iob Source) (ptr : Block) (elementSize count : Nat) : Prop where
  elements : ∀ idx, idx < (file.fread ptr elementSize count).1.1 ->
    (file.fread ptr elementSize count).1.2.load ((idx * elementSize : Nat) : Int) elementSize =
      (element elementSize idx file.own).reverse
  outside : ∀ addr : Int,
    addr < 0 \/ ((file.transferred elementSize count).length : Int) <= addr ->
      (file.fread ptr elementSize count).1.2 addr = ptr addr

/--
When they are, told by the bytes.  If the first element is swapped and was not
read completely, its bytes and those of the memory behind them must read the
same backwards where the memory is; if it was, it must be the file's and all
others must be reversed already.  If the descriptor swaps, too, the elements
change places.
-/
def ComesOutReversed (file : Iob Source) (ptr : Block) (elementSize count : Nat) : Prop :=
  let bytes := file.transferred elementSize count
  if SwapsFirst elementSize count then
    if bytes.length < elementSize then
      ∀ addr : Nat, bytes.length <= addr -> addr < elementSize ->
        ptr.store 0 bytes ((elementSize - 1 - addr : Nat) : Int) = ptr (addr : Int)
    else if file.DescriptorSwaps elementSize count then
      element elementSize (count - 1) bytes = (element elementSize 0 file.own).reverse /\
        ∀ idx, 0 < idx -> idx < count ->
          element elementSize (count - 1 - idx) bytes = element elementSize idx file.own
    else
      element elementSize 0 bytes = element elementSize 0 file.own /\
        ∀ idx, 0 < idx -> idx < bytes.length / elementSize ->
          element elementSize idx bytes = (element elementSize idx file.own).reverse
  else
    ∀ idx, idx < bytes.length / elementSize ->
      element elementSize idx bytes = (element elementSize idx file.own).reverse

theorem load_store_element (ptr : Block) (bytes : List UInt8) {size idx : Nat}
    (inside : idx < bytes.length / size) (pos : 0 < size) :
    (ptr.store 0 bytes).load ((idx * size : Nat) : Int) size = element size idx bytes := by
  have room := (Nat.le_div_iff_mul_le pos).mp inside
  have whole := Block.load_store_same ptr 0 bytes
  have split := element_load (ptr.store 0 bytes) room
  rw [whole] at split
  exact split.symm

/-- The elements of the memory are those of `own` reversed, and behind the bytes
read it is what it was. -/
def Reverses (own : List UInt8) (ptr memory : Block) (size length : Nat) : Prop :=
  (∀ idx, idx < length / size ->
    memory.load ((idx * size : Nat) : Int) size = (element size idx own).reverse) /\
  ∀ addr : Int, addr < 0 \/ length <= addr -> memory addr = ptr addr

section Reverses

variable {own bytes : List UInt8} {ptr : Block} {size : Nat}

theorem store_kept (ptr : Block) (bytes : List UInt8) (addr : Int)
    (outside : addr < 0 \/ bytes.length <= addr) : ptr.store 0 bytes addr = ptr addr :=
  Block.store_apply_outside _ _ _ _ (by omega)

theorem reverses_store (pos : 0 < size) :
    Reverses own ptr (ptr.store 0 bytes) size bytes.length <->
      ∀ idx, idx < bytes.length / size ->
        element size idx bytes = (element size idx own).reverse := by
  constructor
  · intro all idx inside
    rw [<- load_store_element ptr bytes inside pos]
    exact all.1 idx inside
  · intro same
    refine ⟨fun idx inside => ?_, store_kept ptr bytes⟩
    rw [load_store_element ptr bytes inside pos]
    exact same idx inside

theorem reverses_short (short : bytes.length < size) :
    Reverses own ptr (reverseFirst size (ptr.store 0 bytes)) size bytes.length <->
      ∀ addr : Nat, bytes.length <= addr -> addr < size ->
        ptr.store 0 bytes ((size - 1 - addr : Nat) : Int) = ptr (addr : Int) := by
  constructor
  · intro all addr behind inside
    have same := all.2 addr (Or.inr (by omega))
    rwa [reverseFirst_inside inside] at same
  · intro same
    refine ⟨fun idx inside => ?_, fun addr outside => ?_⟩
    · rw [Nat.div_eq_of_lt short] at inside
      exact (Nat.not_lt_zero _ inside).elim
    · by_cases within : 0 <= addr /\ addr < size
      · obtain ⟨place, rfl⟩ := Int.eq_ofNat_of_zero_le within.1
        rw [reverseFirst_inside (by omega)]
        exact same place (by omega) (by omega)
      · rw [reverseFirst_outside _ _ (by omega)]
        exact store_kept ptr bytes addr outside

theorem reverses_first (pos : 0 < size) (long : size <= bytes.length) :
    Reverses own ptr (reverseFirst size (ptr.store 0 bytes)) size bytes.length <->
      element size 0 bytes = element size 0 own /\
        ∀ idx, 0 < idx -> idx < bytes.length / size ->
          element size idx bytes = (element size idx own).reverse := by
  have atLeast := Nat.div_pos long pos
  have first : (reverseFirst size (ptr.store 0 bytes)).load ((0 * size : Nat) : Int) size =
      (element size 0 bytes).reverse := by
    have start := load_store_element ptr bytes atLeast pos
    rw [Nat.zero_mul] at start ⊢
    exact (load_reverseFirst _ _).trans (congrArg List.reverse start)
  constructor
  · intro all
    refine ⟨reverse_injective (first.symm.trans (all.1 0 atLeast)), ?_⟩
    intro idx some inside
    rw [<- load_store_element ptr bytes inside pos, <- load_reverseFirst_behind _ _ some]
    exact all.1 idx inside
  · rintro ⟨start, rest⟩
    refine ⟨fun idx inside => ?_, fun addr outside => ?_⟩
    · rcases Nat.eq_zero_or_pos idx with rfl | some
      · rw [first, start]
      · rw [load_reverseFirst_behind _ _ some, load_store_element ptr bytes inside pos]
        exact rest idx some inside
    · rw [reverseFirst_outside _ _ (by omega)]
      exact store_kept ptr bytes addr outside

end Reverses

/-- What is stored is what was taken from the file, unless it is 2, 4 or 8 bytes that
the descriptor reverses. -/
theorem handed_eq (file : Iob Source) (elementSize count : Nat) : file.handed elementSize count =
      if file.DescriptorSwaps elementSize count /\ (elementSize * count = 2 \/
          elementSize * count = 4 \/ elementSize * count = 8) then
        (file.transferred elementSize count).reverse
      else file.transferred elementSize count := by
  unfold handed
  by_cases reverses : file.DescriptorSwaps elementSize count
  · rw [if_pos reverses, byteswap, reverses.2.2]
    simp only [reverses, true_and]
  · rw [if_neg reverses, if_neg (fun both => reverses both.1)]

/-- All elements that were read come out swapped, and no other byte is touched, exactly if
the one swap of `fread` and that of the descriptor come to this. -/
theorem fread_little_endian_iff {file : Iob Source} (little : file.littleEndian)
    (ptr : Block) {elementSize count : Nat}
    (size : elementSize = 2 \/ elementSize = 4 \/ elementSize = 8) (fits : count < 2 ^ 32) :
    SwapsElements file ptr elementSize count <-> ComesOutReversed file ptr elementSize count := by
  have pos : 0 < elementSize := by omega
  have result := fread_little_endian little ptr size fits
  have lengths := length_handed elementSize count file
  have handed := file.handed_eq elementSize count
  have told : SwapsElements file ptr elementSize count <-> Reverses file.own ptr
      (if SwapsFirst elementSize count then
        reverseFirst elementSize (ptr.store 0 (file.handed elementSize count))
      else ptr.store 0 (file.handed elementSize count)) elementSize
      (file.handed elementSize count).length := by
    rw [Reverses, lengths, <- (Prod.mk.inj result).1, <- (Prod.mk.inj result).2]
    exact ⟨fun all => ⟨all.elements, all.outside⟩, fun all => ⟨all.1, all.2⟩⟩
  -- 2, 4 or 8 bytes are not more than a `size_t` holds
  have request : elementSize * count < 2 ^ 32 -> (SwapsFirst elementSize count <->
      elementSize * count = 2 \/ elementSize * count = 4 \/ elementSize * count = 8) := by
    intro usable
    rw [SwapsFirst, show sizeT (elementSize * count) = _ from Nat.mod_eq_of_lt usable]
  rw [told]
  unfold ComesOutReversed
  by_cases swaps : SwapsFirst elementSize count
  · rw [if_pos swaps, if_pos swaps]
    by_cases short : (file.transferred elementSize count).length < elementSize
    · rw [if_pos short, reverses_short (by rw [lengths]; exact short)]
      rw [if_neg] at handed
      · rw [handed]
      · rintro ⟨reverses, whole⟩
        have full := reverses.2.2
        rcases Nat.eq_zero_or_pos count with rfl | some
        · omega
        · have atLeast : elementSize <= elementSize * count := Nat.le_mul_of_pos_right _ some
          omega
    · rw [if_neg short, reverses_first pos (by omega), lengths]
      by_cases reverses : file.DescriptorSwaps elementSize count
      · have full := reverses.2.2
        have usable : elementSize * count < 2 ^ 32 := by
          by_contra overflow
          have nothing : file.transferred elementSize count = [] :=
            if_neg (fun all => overflow all.2.2.2)
          rw [nothing] at short
          exact short pos
        have some := Nat.pos_of_mul_pos_left (by omega : 0 < elementSize * count)
        have number : (file.transferred elementSize count).length / elementSize = count := by
          rw [full, Nat.mul_div_cancel_left _ pos]
        rw [if_pos ⟨reverses, (request usable).mp swaps⟩] at handed
        rw [if_pos reverses, handed, number, element_reverse full some, Nat.sub_zero]
        constructor
        · rintro ⟨start, rest⟩
          refine ⟨?_, fun idx some inside => ?_⟩
          · rw [<- start, reverse_reverse]
          · have same := rest idx some inside
            rw [element_reverse full inside] at same
            exact reverse_injective same
        · rintro ⟨start, rest⟩
          refine ⟨?_, fun idx some inside => ?_⟩
          · rw [start, reverse_reverse]
          · rw [element_reverse full inside, rest idx some inside]
      · rw [if_neg (fun both => reverses both.1)] at handed
        rw [if_neg reverses, handed]
  · rw [if_neg (fun both => swaps ((request (by omega)).mpr both.2))] at handed
    rw [if_neg swaps, if_neg swaps, reverses_store pos, handed]

end Iob

theorem transferred_own_of_three :
    let file := openSource .full 8 (fun _ => 0) ⟨⟨[1, 2, 3], 0, false⟩, [], [], true⟩
    file.transferred 2 1 <+: file.own := by
  intro file
  exact @Iob.transferred_own file ⟨⟨rfl, rfl, rfl⟩, by decide, ⟨le_refl _, le_refl _, fun _ => rfl⟩,
    rfl, rfl⟩ (fun _ => rfl) 2 1

/-- One element through the buffer. -/
theorem fread_little_endian_single :
    let file := { openSource .full 8 (fun _ => 0) ⟨⟨[1, 2, 3], 0, false⟩, [], [], true⟩ with
      littleEndian := true }
    file.SwapsElements (fun _ => 0) 2 1 := by
  intro file
  refine (@Iob.fread_little_endian_iff file rfl (fun _ => 0) 2 1 (Or.inl rfl) (by decide)).mpr ?_
  refine ⟨by decide, fun idx some inside => ?_⟩
  have one : (file.transferred 2 1).length / 2 = 1 := by decide
  omega

/-- The second element is stored as it is in the file, and an element of which
one byte was read is swapped with the memory behind it. -/
theorem fread_swaps_first_only :
    let file := { openSource .full 8 (fun _ => 0) ⟨⟨[1, 2, 3, 4], 0, false⟩, [], [], true⟩ with
      littleEndian := true }
    let ending := { openSource .full 8 (fun _ => 0) ⟨⟨[1], 0, false⟩, [], [], true⟩ with
      littleEndian := true }
    (file.fread (fun _ => 0) 2 2).1.1 = 2 /\
      (file.fread (fun _ => 0) 2 2).1.2.load 0 4 = [2, 1, 3, 4] /\
      (ending.fread (fun _ => 7) 2 1).1.1 = 0 /\
      (ending.fread (fun _ => 7) 2 1).1.2.load 0 2 = [7, 1] := by
  decide

end Clib4.Stdio
