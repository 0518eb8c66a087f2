import Clib4.Foundation.Exchange

namespace Clib4.Stdlib

open Foundation

/-!
# `qsort`

The routine works on bytes: elements are `es` bytes each, pointers are
addresses, and exchanging two elements goes word by word or byte by byte
depending on alignment.  The comparison function sees the bytes of two
elements.  Loops take fuel and yield `none` when it runs out; that it never
does is part of what is proved about them.
-/

def sizeofLong : Nat := 4

/-- What a variable of type `size_t` holds after a signed value is assigned to it. -/
def sizeT (value : Int) : Nat := (value % 2 ^ 32).toNat

/-! ## Exchanging elements -/

/-- `SWAPINIT`: 0 for elements that are one aligned `long`, 1 for several, 2 for the rest. -/
def swapinit (a : Int) (es : Nat) : Nat :=
  if a % (sizeofLong : Int) ≠ 0 \/ es % sizeofLong ≠ 0 then 2
  else if es = sizeofLong then 0
  else 1

/-- The body of `swapcode` runs at least once. -/
def swapcode (width : Nat) (parmi parmj : Int) (n : Nat) (block : Block) : Block :=
  Block.exchangeUnits width (max 1 (n / width)) parmi parmj block

def swapfunc (a b : Int) (n swaptype : Nat) (block : Block) : Block :=
  if swaptype <= 1 then swapcode sizeofLong a b n block
  else swapcode 1 a b n block

def swap (es swaptype : Nat) (a b : Int) (block : Block) : Block :=
  if swaptype = 0 then block.exchange a b sizeofLong
  else swapfunc a b es swaptype block

def vecswap (swaptype : Nat) (a b : Int) (n : Nat) (block : Block) : Block :=
  if 0 < n then swapfunc a b n swaptype block else block

/-! ## The pivot -/

/-- The median of three elements; `compare` compares what two pointers point to. -/
def med3 (cmp : Int -> Int -> Int) (a b c : Int) : Int :=
  if cmp a b < 0 then
    if cmp b c < 0 then b else if cmp a c < 0 then c else a
  else
    if cmp b c > 0 then b else if cmp a c < 0 then a else c

/-- The element the array is divided by: the middle one, the median of three,
or for large arrays the median of three such medians. -/
def choosePivot (cmp : Int -> Int -> Int) (a : Int) (n es : Nat) : Int :=
  let pm := a + ((n / 2 : Nat) : Int) * (es : Int)
  if n > 7 then
    let pl := a
    let pn := a + ((n - 1 : Nat) : Int) * (es : Int)
    if n > 40 then
      let d := ((n / 8 : Nat) : Int) * (es : Int)
      let pl := med3 cmp pl (pl + d) (pl + 2 * d)
      let pm := med3 cmp (pm - d) pm (pm + d)
      let pn := med3 cmp (pn - 2 * d) (pn - d) pn
      med3 cmp pl pm pn
    else med3 cmp pl pm pn
  else pm

section Sorting

variable {es : Nat} (cmp : Record es -> Record es -> Int)

/-- `cmp(p, q)`. -/
def compareAt (block : Block) (p q : Int) : Int :=
  cmp (block.record es p) (block.record es q)

/-! ## Insertion sort -/

/-- The inner loop: move the element at `pl` down to its place. -/
def sink (swaptype : Nat) (a : Int) : Nat -> Int -> Block -> Option Block
  | 0, _, _ => none
  | fuel + 1, pl, block =>
    if pl > a /\ compareAt cmp block (pl - (es : Int)) pl > 0 then
      sink swaptype a fuel (pl - (es : Int)) (swap es swaptype pl (pl - (es : Int)) block)
    else some block

/-- The outer loop, from the element at `pm` on. -/
def insertFrom (swaptype : Nat) (a : Int) (n : Nat) : Nat -> Int -> Block -> Option Block
  | 0, _, _ => none
  | fuel + 1, pm, block =>
    if pm < a + (n : Int) * (es : Int) then
      (sink cmp swaptype a (n + 1) pm block).bind fun sunk =>
        insertFrom swaptype a n fuel (pm + (es : Int)) sunk
    else some block

def insertionSort (swaptype : Nat) (a : Int) (n : Nat) (block : Block) : Option Block :=
  insertFrom cmp swaptype a n (n + 1) (a + (es : Int)) block

/-! ## Dividing -/

/-- The variables of the dividing loops. -/
structure Division where
  block : Block
  pa : Int
  pb : Int
  pc : Int
  pd : Int
  swapCnt : Nat

/-- The first inner loop.  `r` is a `size_t`, so `r <= 0` means `r == 0`. -/
def scanUp (swaptype : Nat) (a : Int) : Nat -> Division -> Option Division
  | 0, _ => none
  | fuel + 1, division =>
    let r := sizeT (compareAt cmp division.block division.pb a)
    if division.pb <= division.pc /\ r <= 0 then
      let moved :=
        if r = 0 then
          { division with
            swapCnt := 1
            block := swap es swaptype division.pa division.pb division.block
            pa := division.pa + (es : Int) }
        else division
      scanUp swaptype a fuel { moved with pb := moved.pb + (es : Int) }
    else some division

/-- The second inner loop.  `r >= 0` holds for every `size_t`. -/
def scanDown (swaptype : Nat) (a : Int) : Nat -> Division -> Option Division
  | 0, _ => none
  | fuel + 1, division =>
    let r := sizeT (compareAt cmp division.block division.pc a)
    if division.pb <= division.pc /\ r >= 0 then
      let moved :=
        if r = 0 then
          { division with
            swapCnt := 1
            block := swap es swaptype division.pc division.pd division.block
            pd := division.pd - (es : Int) }
        else division
      scanDown swaptype a fuel { moved with pc := moved.pc - (es : Int) }
    else some division

/-- The loop around the two; `n` bounds the rounds of each of the three. -/
def divide (swaptype : Nat) (a : Int) (n : Nat) : Nat -> Division -> Option Division
  | 0, _ => none
  | fuel + 1, division =>
    (scanUp cmp swaptype a (n + 1) division).bind fun up =>
      (scanDown cmp swaptype a (n + 1) up).bind fun down =>
        if down.pb > down.pc then some down
        else
          divide swaptype a n fuel
            { down with
              block := swap es swaptype down.pb down.pc down.block
              swapCnt := 1
              pb := down.pb + (es : Int)
              pc := down.pc - (es : Int) }

/-- `qsort(a, n, es, cmp)`. -/
def qsortFrom : Nat -> Int -> Nat -> Block -> Option Block
  | 0, _, _, _ => none
  | fuel + 1, a, n, block =>
    let swaptype := swapinit a es
    if n < 7 then insertionSort cmp swaptype a n block
    else
      let pm := choosePivot (compareAt cmp block) a n es
      let first := a + (es : Int)
      let last := a + ((n - 1 : Nat) : Int) * (es : Int)
      let start : Division := ⟨swap es swaptype a pm block, first, first, last, last, 0⟩
      (divide cmp swaptype a n (n + 1) start).bind fun done =>
        if done.swapCnt = 0 then insertionSort cmp swaptype a n done.block
        else
          let pn := a + (n : Int) * (es : Int)
          let r := (min (done.pa - a) (done.pb - done.pa)).toNat
          let block := vecswap swaptype a (done.pb - (r : Int)) r done.block
          let r := (min (done.pd - done.pc) (pn - done.pd - (es : Int))).toNat
          let block := vecswap swaptype done.pb (pn - (r : Int)) r block
          let r := (done.pb - done.pa).toNat
          (if r > es then qsortFrom fuel a (r / es) block else some block).bind fun block =>
            let r := (done.pd - done.pc).toNat
            if r > es then qsortFrom fuel (pn - (r : Int)) (r / es) block
            else some block

/-- A call works on ever smaller arrays, so its size is fuel enough. -/
def qsort (a : Int) (n : Nat) (block : Block) : Option Block :=
  qsortFrom cmp (n + 1) a n block

def elements (es : Nat) (block : Block) (a : Int) (n : Nat) : List (Record es) :=
  segment (block.records a es) 0 n

end Sorting

end Clib4.Stdlib
