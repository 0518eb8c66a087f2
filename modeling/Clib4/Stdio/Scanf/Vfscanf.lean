import Clib4.Stdio.Scanf.Convert

namespace Clib4.Stdio.Scanf

open Foundation Stdlib

/-!
# `vfscanf`

The loop of `vfscanf.c`: white space, ordinary characters and directives, one
after the other.  The last branches of a directive do not look at its conversion
but at the character read last, which belongs to the format only where no white
space was skipped.
-/

/-- The branches a directive can take. -/
inductive Branch
  | characters | real | integer | string | count | percent | scanset | nothing
  deriving DecidableEq, Repr

def branchOf (conversion : ConversionType) (c : Option UInt8) : Branch :=
  match conversion with
  | .c => .characters
  | .f => .real
  | .d | .i | .o | .u | .x => .integer
  | .s => .string
  | .n => .count
  | .upperX | .percent | .scanset =>
    if c = some (byteOf '%') then .percent
    else if c = some (byteOf '[') then .scanset
    else .nothing

/-- The conversions in front of which no white space is skipped. -/
def ConversionType.keepsSpace : ConversionType -> Option UInt8
  | .c => some (byteOf 'c')
  | .n => some (byteOf 'n')
  | .scanset => some (byteOf '[')
  | _ => none

section Loop

variable (host : Platform) {σ : Type} [CharStream σ UInt8]

/-- White space in front of a field, and the character read last. -/
def leadingSpace {ρ : Type} (fuel : Nat) (conversion : ConversionType) (scan : Scan σ ρ) :
    Except (Halt σ ρ) (Option UInt8 × Scan σ ρ) :=
  match conversion.keepsSpace with
  | some c => .ok (some c, scan)
  | none => skipSpace fuel scan

def convertBranch (fuel : Nat) (spec : Directive) (format : List UInt8)
    (branch : Branch) (scan : Scan σ host.LongDouble) :
    Except (Halt σ host.LongDouble) (List UInt8 × Scan σ host.LongDouble) :=
  match branch with
  | .characters => (convertCharacters fuel spec scan).map (format, ·)
  | .real => (convertReal host fuel spec scan).map (format, ·)
  | .integer => (convertInteger fuel spec scan).map (format, ·)
  | .string => (convertString fuel spec scan).map (format, ·)
  | .count => .ok (format, storeCount spec scan)
  | .percent => (matchCharacter (byteOf '%') scan).map (format, ·)
  | .scanset => convertScanset fuel spec format scan
  | .nothing => .ok (format, scan)

/-- A directive; the format behind it is what a scanset is taken from. -/
def convert (fuel : Nat) (spec : Directive) (format : List UInt8)
    (scan : Scan σ host.LongDouble) :
    Except (Halt σ host.LongDouble) (List UInt8 × Scan σ host.LongDouble) := do
  let (c, scan) <- leadingSpace fuel spec.conversion scan
  convertBranch host fuel spec format (branchOf spec.conversion c) scan

def round (fuel : Nat) (format : List UInt8) (scan : Scan σ host.LongDouble) :
    Except (Halt σ host.LongDouble) (List UInt8 × Scan σ host.LongDouble) :=
  let c := current format
  if c = 0 then .error (.stop scan)
  else if isspace c then (matchSpace fuel scan).map (format.tail, ·)
  else if c ≠ byteOf '%' then (matchCharacter c scan).map (format.tail, ·)
  else
    match parseDirective format.tail with
    | .ended => .error (.stop scan)
    | .unknown format => .ok (format, scan)
    | .directive spec format => convert host fuel spec format scan

def rounds (fuel : Nat) : Nat -> List UInt8 -> Scan σ host.LongDouble ->
    Halt σ host.LongDouble
  | 0, _, _ => .unfinished
  | count + 1, format, scan =>
    match round host fuel format scan with
    | .error halt => halt
    | .ok (format, scan) => rounds fuel count format scan

def Scan.initial {ρ : Type} (stream : σ) : Scan σ ρ := ⟨stream, 0, 0, 0, 0, []⟩

def Halt.result {ρ : Type} : Halt σ ρ -> Option Int
  | .stop scan => some scan.numAssignments
  | .out _ => some (-1)
  | .unfinished => none

/-- `vfscanf()` on a stream that can be read. -/
def vfscanf (fuel : Nat) (stream : σ) (format : List UInt8) : Halt σ host.LongDouble :=
  rounds host fuel (format.length + 1) format (.initial stream)

/-- The rounds that are begun behind rounds that were all allowed. -/
inductive Reached (fuel : Nat) (allowed : List UInt8 -> Scan σ host.LongDouble -> Prop)
    (stream : σ) (format : List UInt8) : List UInt8 -> Scan σ host.LongDouble -> Prop
  | start : Reached fuel allowed stream format format (.initial stream)
  | next {rest rest' : List UInt8} {scan scan' : Scan σ host.LongDouble}
      (reached : Reached fuel allowed stream format rest scan) (met : allowed rest scan)
      (stepped : round host fuel rest scan = .ok (rest', scan')) :
      Reached fuel allowed stream format rest' scan'

/-- The directive the format begins with, and what follows it. -/
def formatDirective (format : List UInt8) : Option (Directive × List UInt8) :=
  if current format = byteOf '%' then
    match parseDirective format.tail with
    | .directive spec rest => some (spec, rest)
    | _ => none
  else none

theorem round_directive {fuel : Nat} {format rest : List UInt8} {spec : Directive}
    (begins : formatDirective format = some (spec, rest))
    (scan : Scan σ host.LongDouble) :
    round host fuel format scan = convert host fuel spec rest scan := by
  unfold formatDirective at begins
  by_cases percent : current format = byteOf '%'
  · rw [if_pos percent] at begins
    unfold round
    rw [percent, if_neg (by decide), if_neg (by decide), if_neg (by simp)]
    cases parsed : parseDirective format.tail with
    | ended | unknown =>
      rw [parsed] at begins
      cases begins
    | directive found left =>
      rw [parsed] at begins
      cases begins
      rfl
  · rw [if_neg percent] at begins
    cases begins

end Loop

def plainPlatform : Platform where
  LongDouble := Unit
  Double := Unit
  zero := ()
  infinity := ()
  nan := ()
  hugeVal := ()
  shiftIn _ _ _ := ()
  less _ _ := false
  atLeast _ _ := true
  negate _ := ()
  reciprocal _ := ()
  isZero _ := false
  addFraction _ _ _ := ()
  nextPlace _ _ := ()
  pow _ _ := ()
  divide _ _ := ()
  multiply _ _ := ()
  decimalPoint := none

end Clib4.Stdio.Scanf
