import Clib4.Stdio.Scanf.Vfscanf

namespace Clib4.Stdio.Scanf

open Foundation Stdlib
open TextStream (Before)

/-!
# Characters read and characters counted

The invariant of a scan is the sum of the characters counted and the characters
that are left.
-/

/-- The scan stands before a text of limited length, and what was counted and what
is left have a given sum. -/
def Balanced {σ ρ : Type} [TextStream σ UInt8] (bound : Nat) (balance : Int)
    (scan : Scan σ ρ) : Prop :=
  ∃ text, Before scan.stream text /\ text.length <= bound /\
    scan.totalNumCharsRead + text.length = balance

/-- What holds of the scan a computation leaves, however it ends; it does end. -/
def Leaves {σ ρ α : Type} (P : Scan σ ρ -> Prop) (scanOf : α -> Scan σ ρ) :
    Except (Halt σ ρ) α -> Prop
  | .ok value => P (scanOf value)
  | .error (.stop scan) => P scan
  | .error (.out scan) => P scan
  | .error .unfinished => False

/-- Nothing has been stored, and nothing counted as a conversion. -/
structure Untouched {σ ρ : Type} (before after : Scan σ ρ) : Prop where
  numConversions : after.numConversions = before.numConversions
  numAssignments : after.numAssignments = before.numAssignments
  params : after.params = before.params
  stores : after.stores = before.stores

theorem Untouched.trans {σ ρ : Type} {first second third : Scan σ ρ}
    (one : Untouched first second) (two : Untouched second third) : Untouched first third :=
  ⟨two.numConversions.trans one.numConversions, two.numAssignments.trans one.numAssignments,
    two.params.trans one.params, two.stores.trans one.stores⟩

section Rules

variable {σ ρ α β : Type} {P : Scan σ ρ -> Prop} {scanOf : α -> Scan σ ρ}
  {scanOf' : β -> Scan σ ρ}

variable {first : Except (Halt σ ρ) α}

theorem Leaves.bind {second : α -> Except (Halt σ ρ) β} (leaves : Leaves P scanOf first)
    (goesOn : ∀ value, P (scanOf value) -> Leaves P scanOf' (second value)) :
    Leaves P scanOf' (first >>= second) := by
  cases first with
  | ok value => exact goesOn value leaves
  | error halt =>
    cases halt with
    | stop scan | out scan | unfinished => exact leaves

theorem Leaves.map {f : α -> β} (leaves : Leaves P scanOf first)
    (same : ∀ value, scanOf' (f value) = scanOf value) : Leaves P scanOf' (first.map f) := by
  cases first with
  | ok value => exact (congrArg P (same value)).mpr leaves
  | error halt =>
    cases halt with
    | stop scan | out scan | unfinished => exact leaves

theorem Leaves.iff_of {Q : Scan σ ρ -> Prop} {condition : Prop} {result : Except (Halt σ ρ) α}
    (leaves : Leaves P scanOf result) (same : ∀ scan, P scan -> (Q scan <-> condition)) :
    Leaves Q scanOf result <-> condition := by
  cases result with
  | ok value => exact same _ leaves
  | error halt =>
    cases halt with
    | stop scan | out scan => exact same scan leaves
    | unfinished => exact leaves.elim

end Rules

theorem settle_eq {σ ρ α : Type} {field : Field σ ρ} {got : Reading σ UInt8 α}
    (clean : got.ending.clean) : field.settle got = .ok (got, field) := by
  unfold Field.settle
  cases ending : got.ending with
  | lost | unfinished =>
    rw [ending] at clean
    cases clean
  | taken | full | last | ended | refused => rfl

section Phases

variable {σ ρ α : Type} [TextStream σ UInt8] {bound fuel : Nat} {balance : Int}

theorem Balanced.congr {scan scan' : Scan σ ρ} (balanced : Balanced bound balance scan)
    (stream : scan'.stream = scan.stream)
    (total : scan'.totalNumCharsRead = scan.totalNumCharsRead) :
    Balanced bound balance scan' := by
  unfold Balanced
  rw [stream, total]
  exact balanced

variable {scan : Scan σ ρ}

section

variable (balanced : Balanced bound balance scan)
include balanced

variable (suppressed : Bool)

theorem Balanced.store (stores : List (Store ρ)) :
    Balanced bound balance (scan.store suppressed stores) := by
  unfold Scan.store
  split
  · exact balanced
  · exact balanced.congr rfl rfl

theorem Balanced.takeParameter : Balanced bound balance (scan.takeParameter suppressed) := by
  unfold Scan.takeParameter
  split
  · exact balanced
  · exact balanced.congr rfl rfl

theorem Balanced.succeed : Balanced bound balance (scan.succeed suppressed) :=
  balanced.congr rfl rfl

theorem Balanced.endOfFile {scanOf : α -> Scan σ ρ} :
    Leaves (Balanced bound balance) scanOf (.error scan.endOfFile) := by
  unfold Scan.endOfFile
  split <;> exact balanced

end

variable {field : Field σ ρ}

variable {text : List UInt8}

theorem Balanced.behind {got : Reading σ UInt8 α}
    {found : Reading (List UInt8) UInt8 α} (agrees : got.Agrees found)
    (splits : found.Splits text) (bounded : text.length <= bound)
    (sum : field.scan.totalNumCharsRead + text.length = balance) :
    Balanced bound balance (field.behind got).scan := by
  have length := splits.length
  refine ⟨found.stream, agrees.before, by omega, ?_⟩
  show field.scan.totalNumCharsRead + (got.count : Int) + found.stream.length = balance
  rw [agrees.count]
  omega

theorem look_eq (before : Before field.scan.stream text)
    (test : α -> UInt8 -> Verdict α) (value : α) :
    ∃ got, field.look test value = .ok (got, field.behind got) /\
      got.Agrees (lookText test field.width value text) := by
  have agrees := readOne_agrees test field.width value before
  have splits := lookText_splits test field.width value text
  exact ⟨_, settle_eq (agrees.ending ▸ splits.kept), agrees⟩

theorem read_eq (before : Before field.scan.stream text)
    (enough : text.length < fuel) (test : α -> UInt8 -> Verdict α) (value : α) :
    ∃ got, field.read fuel test value = .ok (got, field.behind got) /\
      got.Agrees (readText test field.width value text) := by
  have agrees := readWhile_agrees test field.width value before enough
  have splits := readText_splits test field.width value text
  exact ⟨_, settle_eq (agrees.ending ▸ splits.kept), agrees⟩

theorem Balanced.look (balanced : Balanced bound balance field.scan)
    (test : α -> UInt8 -> Verdict α) (value : α) :
    Leaves (Balanced bound balance) (fun result => result.2.scan) (field.look test value) := by
  obtain ⟨text, before, bounded, sum⟩ := balanced
  obtain ⟨got, looked, agrees⟩ := look_eq before test value
  rw [looked]
  exact Balanced.behind agrees (lookText_splits test field.width value text) bounded sum

theorem Balanced.read (enough : bound < fuel)
    (balanced : Balanced bound balance field.scan) (test : α -> UInt8 -> Verdict α) (value : α) :
    Leaves (Balanced bound balance) (fun result => result.2.scan)
      (field.read fuel test value) := by
  obtain ⟨text, before, bounded, sum⟩ := balanced
  obtain ⟨got, read, agrees⟩ := read_eq before (Nat.lt_of_le_of_lt bounded enough) test value
  rw [read]
  exact Balanced.behind agrees (readText_splits test field.width value text) bounded sum

theorem Balanced.collect (enough : bound < fuel)
    (balanced : Balanced bound balance field.scan) (test : UInt8 -> Bool) (suppressed : Bool)
    (stores : List UInt8 -> List (Store ρ)) :
    Leaves (Balanced bound balance) (fun result => result.2.scan)
      (field.collect fuel test suppressed stores) := by
  obtain ⟨text, before, bounded, sum⟩ := balanced
  have agrees := readWhile_agrees (collecting test) field.width [] before
    (Nat.lt_of_le_of_lt bounded enough)
  have splits := readText_splits (collecting test) field.width [] text
  unfold Field.collect
  rw [settle_eq (agrees.ending ▸ splits.kept)]
  exact Balanced.store (Balanced.behind agrees splits bounded sum) _ _

/-! ## The branches without a keyword -/

theorem skipSpace_eq (before : Before scan.stream text) (enough : text.length < fuel) :
    ∃ after, skipSpace fuel scan = .ok ((text.dropWhile isspace).head?, after) /\
      Before after.stream (text.dropWhile isspace) /\ Untouched scan after := by
  have start : Before (scan.field (-1)).scan.stream text := before
  obtain ⟨got, read, agrees⟩ := read_eq start enough (having isspace) ()
  rw [show (scan.field (-1)).width = -1 from rfl, readText_having] at agrees
  refine ⟨((scan.field (-1)).behind got).scan, ?_, agrees.before, rfl, rfl, rfl, rfl⟩
  unfold skipSpace
  rw [read]
  show Except.ok (got.refused, _) = _
  rw [agrees.refused]

theorem Balanced.skipSpace (enough : bound < fuel) (balanced : Balanced bound balance scan) :
    Leaves (Balanced bound balance) Prod.snd (skipSpace fuel scan) := by
  have start := balanced
  exact (start.read enough _ _).bind fun ⟨_, _⟩ after => after

theorem Balanced.matchSpace (enough : bound < fuel) (balanced : Balanced bound balance scan) :
    Leaves (Balanced bound balance) id (matchSpace fuel scan) := by
  refine (balanced.skipSpace enough).bind fun ⟨c, scan⟩ after => ?_
  dsimp only
  split
  · exact after.endOfFile
  · exact after

theorem Balanced.matchCharacter (balanced : Balanced bound balance scan)
    (c : UInt8) : Leaves (Balanced bound balance) id (matchCharacter c scan) := by
  have start := balanced
  refine (start.look _ _).bind fun ⟨got, field⟩ after => ?_
  dsimp only
  split
  · exact after.endOfFile
  all_goals exact after

section

variable (enough : bound < fuel) (balanced : Balanced bound balance scan) (spec : Directive)
include enough balanced

theorem Balanced.convertCharacters :
    Leaves (Balanced bound balance) id (convertCharacters fuel spec scan) := by
  refine Leaves.bind (Balanced.collect enough (balanced.takeParameter _) _ _ _)
    fun ⟨got, field⟩ after => ?_
  dsimp only
  split
  · exact after.endOfFile
  · exact after.succeed _

theorem Balanced.convertString :
    Leaves (Balanced bound balance) id (convertString fuel spec scan) := by
  refine Leaves.bind (Balanced.collect enough (balanced.takeParameter _) _ _ _)
    fun ⟨got, field⟩ after => ?_
  dsimp only
  split
  · exact after
  · exact after.succeed _

theorem Balanced.convertScanset (format : List UInt8) :
    Leaves (Balanced bound balance) Prod.snd (convertScanset fuel spec format scan) := by
  refine Leaves.bind (Balanced.collect enough (balanced.takeParameter _) _ _ _)
    fun ⟨got, field⟩ after => ?_
  dsimp only
  split
  · exact after
  · split
    · exact after.succeed _
    · exact after

end

theorem Balanced.readOpening (balanced : Balanced bound balance field.scan)
    (conversion : ConversionType) :
    Leaves (Balanced bound balance) (fun result => result.2.2.scan)
      (readOpening conversion field) := by
  refine (balanced.look _ _).bind fun ⟨first, field⟩ after => ?_
  dsimp only
  split
  · split
    · refine (after.look _ _).bind fun ⟨second, field⟩ after => ?_
      split
      · exact after
      · split
        all_goals exact after
    · exact after
  · exact after

theorem Balanced.convertInteger (enough : bound < fuel)
    (balanced : Balanced bound balance scan) (spec : Directive) :
    Leaves (Balanced bound balance) id (convertInteger fuel spec scan) := by
  have start := (balanced.takeParameter spec.suppressed).store spec.suppressed
    (integerStores scan.params spec.size 0)
  refine Leaves.bind (Balanced.readOpening start _) fun ⟨negative, radix, field⟩ after => ?_
  refine (after.read enough _ _).bind fun ⟨got, field⟩ after => ?_
  dsimp only
  split
  · exact after
  · split
    · exact (after.store _ _).succeed _
    · exact after

theorem Balanced.storeCount (balanced : Balanced bound balance scan)
    (spec : Directive) : Balanced bound balance (storeCount spec scan) :=
  (balanced.takeParameter _).store _ _

variable (host : Platform)

theorem Balanced.readRadix (balanced : Balanced bound balance field.scan) :
    Leaves (Balanced bound balance) (fun result => result.2.scan) (readRadix field) := by
  refine (balanced.look _ _).bind fun ⟨zero, field⟩ after => ?_
  dsimp only
  split
  · have counted : Balanced bound balance (field.process 1).scan := after
    refine (counted.look _ _).bind fun ⟨mark, field⟩ after => ?_
    split <;> exact after
  · exact after

section

variable (enough : bound < fuel) (balanced : Balanced bound balance field.scan)
include enough balanced

theorem Balanced.readFraction (radix : Nat) (sum : host.LongDouble) :
    Leaves (Balanced bound balance) (fun result => result.2.scan)
      (readFraction host fuel radix sum field) := by
  have counted : Balanced bound balance (field.process 1).scan := balanced
  exact (counted.read enough _ _).bind fun ⟨_, _⟩ after => after

theorem Balanced.readExponent (radix : Nat) (sum : host.LongDouble) :
    Leaves (Balanced bound balance) (fun result => result.2.scan)
      (readExponent host fuel radix sum field) := by
  refine (balanced.look _ _).bind fun ⟨sign, field⟩ after => ?_
  dsimp only
  split
  · exact after
  · have counted : Balanced bound balance (field.process sign.count).scan := after
    exact (counted.read enough _ _).bind fun ⟨_, _⟩ after => after

theorem Balanced.readNumber (sum : host.LongDouble) :
    Leaves (Balanced bound balance) (fun result => result.2.scan)
      (readNumber host fuel field sum) := by
  refine balanced.readRadix.bind fun ⟨radix, field⟩ after => ?_
  refine (after.read enough _ _).bind fun ⟨whole, field⟩ after => ?_
  dsimp only
  split
  · exact after
  · have counted : Balanced bound balance (field.process whole.count).scan := after
    refine (counted.look _ _).bind fun ⟨mark, field⟩ after => ?_
    split
    · exact after
    · refine (after.readFraction host enough radix _).bind fun ⟨fraction, field⟩ after => ?_
      split
      · exact after.readExponent host enough radix _
      · exact after
    · exact after.readExponent host enough radix _

end

end Phases

end Clib4.Stdio.Scanf
