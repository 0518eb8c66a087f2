import Clib4.Stdio.Scanf.Keyword

namespace Clib4.Stdio.Scanf

open Foundation Stdlib
open TextStream (Before)

/-!
# Rounds and runs

A round of the loop leaves a text that is not longer, and it keeps the count right
unless it is a floating point directive whose search for a keyword does not.  What
holds behind every round holds wherever a run gets to.
-/

section Rounds

variable (host : Platform) {σ : Type} [TextStream σ UInt8] {fuel bound : Nat}
  {balance : Int}

def realField (spec : Directive) (scan : Scan σ host.LongDouble) :
    Field σ host.LongDouble :=
  ((scan.takeParameter spec.suppressed).store spec.suppressed
    (realStores scan.params spec.size host.zero)).field spec.width

/-- The field in which a directive begins to search for a keyword: white space and
a sign have been read. -/
def KeywordAt (fuel : Nat) (spec : Directive) (scan : Scan σ host.LongDouble)
    (field : Field σ host.LongDouble) : Prop :=
  ∃ c after sign, leadingSpace fuel spec.conversion scan = .ok (c, after) /\
    (realField host spec after).look signOf false = .ok (sign, field)

/-- The round keeps the count right: where it is a floating point directive, its
search for a keyword does. -/
def Counts (fuel : Nat) (format : List UInt8) (scan : Scan σ host.LongDouble) : Prop :=
  ∀ spec rest field, formatDirective format = some (spec, rest) ->
    spec.conversion = .f -> KeywordAt host fuel spec scan field ->
    KeywordMet field

/-! ## One round -/

variable {scan : Scan σ host.LongDouble}

section

variable (enough : bound < fuel) (balanced : Balanced bound balance scan)
include enough balanced

theorem Balanced.convertReal (spec : Directive) :
    ∃ sign field balance', (realField host spec scan).look signOf false =
        .ok (sign, field) /\
      Leaves (Balanced bound balance') id (convertReal host fuel spec scan) /\
      (balance' = balance <-> KeywordMet field) := by
  have prepared : Balanced bound balance (realField host spec scan).scan :=
    (balanced.takeParameter _).store _ _
  have signed := prepared.look signOf false
  obtain ⟨text, before, _, _⟩ := prepared
  obtain ⟨sign, looked, _⟩ := look_eq before signOf false
  rw [looked] at signed
  obtain ⟨sum, field, balance', found, after, same⟩ := Balanced.readKeyword host enough signed
  refine ⟨sign, _, balance', looked, ?_, same⟩
  have read : Leaves (Balanced bound balance') (fun result => result.2.scan)
      (readReal host fuel ((realField host spec scan).behind sign)) := by
    unfold readReal
    rw [found]
    show Leaves _ _ (if field.processed = 0 then Scanf.readNumber host fuel field sum
      else pure (sum, field))
    split
    · exact after.readNumber host enough sum
    · exact after
  show Leaves _ _ ((realField host spec scan).look signOf false >>= _)
  rw [looked]
  refine read.bind fun ⟨sum, field⟩ after => ?_
  show Balanced bound balance' (storeReal host spec scan.params sign.value sum field)
  unfold storeReal
  split
  · exact (after.store _ _).succeed _
  · exact after

theorem Balanced.leadingSpace (conversion : ConversionType) :
    Leaves (Balanced bound balance) Prod.snd (leadingSpace fuel conversion scan) := by
  unfold Scanf.leadingSpace
  split
  · exact balanced
  · exact balanced.skipSpace enough

theorem Balanced.convertBranch (spec : Directive) (format : List UInt8) {branch : Branch}
    (notReal : branch ≠ .real) :
    Leaves (Balanced bound balance) Prod.snd
      (convertBranch host fuel spec format branch scan) := by
  cases branch with
  | characters => exact (balanced.convertCharacters enough spec).map fun _ => rfl
  | real => exact absurd rfl notReal
  | integer => exact (balanced.convertInteger enough spec).map fun _ => rfl
  | string => exact (balanced.convertString enough spec).map fun _ => rfl
  | count => exact balanced.storeCount spec
  | percent => exact (balanced.matchCharacter _).map fun _ => rfl
  | scanset => exact balanced.convertScanset enough spec format
  | nothing => exact balanced

end

variable {conversion : ConversionType}

theorem branchOf_eq_real_iff {c : Option UInt8} :
    branchOf conversion c = .real <-> conversion = .f := by
  unfold branchOf
  cases conversion <;> simp
  all_goals split_ifs <;> simp

/-- A round that is no floating point directive keeps the count right. -/
theorem Balanced.round (enough : bound < fuel)
    (balanced : Balanced bound balance scan) {format : List UInt8}
    (notReal : ∀ spec rest, formatDirective format = some (spec, rest) ->
      spec.conversion ≠ .f) :
    Leaves (Balanced bound balance) Prod.snd (round host fuel format scan) := by
  cases begins : formatDirective format with
  | some found =>
    obtain ⟨spec, rest⟩ := found
    rw [round_directive host begins]
    refine (balanced.leadingSpace host enough _).bind fun ⟨c, scan⟩ after => ?_
    refine after.convertBranch host enough spec rest fun real => ?_
    exact notReal spec rest begins (branchOf_eq_real_iff.mp real)
  | none =>
    unfold Scanf.round
    dsimp only
    split_ifs with ended space ordinary
    · exact balanced
    · exact (balanced.matchSpace enough).map fun _ => rfl
    · exact (balanced.matchCharacter _).map fun _ => rfl
    · unfold formatDirective at begins
      rw [if_pos (not_not.mp ordinary)] at begins
      cases parsed : parseDirective format.tail with
      | ended | unknown rest => exact balanced
      | directive spec rest =>
        rw [parsed] at begins
        cases begins

theorem leadingSpace_eq {ρ : Type} {scan : Scan σ ρ} {text : List UInt8}
    (before : Before scan.stream text) (enough : text.length < fuel)
    (skips : conversion.keepsSpace = none) :
    ∃ after, leadingSpace fuel conversion scan = .ok ((text.dropWhile isspace).head?, after) /\
      Before after.stream (text.dropWhile isspace) /\ Untouched scan after := by
  unfold leadingSpace
  rw [skips]
  exact skipSpace_eq before enough

section

variable (enough : bound < fuel) (balanced : Balanced bound balance scan)
include enough balanced

theorem Balanced.leadingSpace_ok (conversion : ConversionType) :
    ∃ c after, Scanf.leadingSpace fuel conversion scan = .ok (c, after) /\
      Balanced bound balance after := by
  have left := balanced.leadingSpace host enough conversion
  obtain ⟨text, before, bounded, _⟩ := balanced
  have skipped : ∃ c after, Scanf.leadingSpace fuel conversion scan = .ok (c, after) := by
    cases keeps : conversion.keepsSpace with
    | some c =>
      unfold Scanf.leadingSpace
      rw [keeps]
      exact ⟨_, _, rfl⟩
    | none =>
      obtain ⟨after, skipped, _⟩ :=
        leadingSpace_eq before (bounded.trans_lt enough) keeps
      exact ⟨_, after, skipped⟩
  obtain ⟨c, after, skipped⟩ := skipped
  rw [skipped] at left
  exact ⟨c, after, skipped, left⟩

/-- A round ends before a text that is not longer, and it keeps the count right
exactly when its search for a keyword does. -/
theorem Balanced.round_leaves (format : List UInt8) :
    ∃ balance', Leaves (Balanced bound balance') Prod.snd
        (Scanf.round host fuel format scan) /\
      (balance' = balance <-> Counts host fuel format scan) := by
  by_cases real : ∃ spec rest,
      formatDirective format = some (spec, rest) /\ spec.conversion = .f
  · obtain ⟨spec, rest, begins, isReal⟩ := real
    obtain ⟨c, after, skipped, balancedAfter⟩ :=
      balanced.leadingSpace_ok host enough spec.conversion
    obtain ⟨sign, field, balance', looked, leaves, same⟩ :=
      balancedAfter.convertReal host enough spec
    have round : Scanf.round host fuel format scan =
        (Scanf.convertReal host fuel spec after).map (rest, ·) := by
      rw [round_directive host begins]
      unfold Scanf.convert
      rw [skipped]
      show Scanf.convertBranch host fuel spec rest _ after = _
      rw [branchOf_eq_real_iff.mpr isReal]
      rfl
    refine ⟨balance', ?_, same.trans ?_⟩
    · rw [round]
      exact leaves.map fun _ => rfl
    · constructor
      · rintro met _ _ field' begins' _ ⟨c', after', sign', skipped', looked'⟩
        rw [begins] at begins'
        cases begins'
        rw [skipped] at skipped'
        cases skipped'
        rw [looked] at looked'
        cases looked'
        exact met
      · intro all
        exact all spec rest field begins isReal ⟨c, after, sign, skipped, looked⟩
  · refine ⟨balance, balanced.round host enough fun spec rest begins isReal =>
      real ⟨spec, rest, begins, isReal⟩, iff_of_true rfl ?_⟩
    intro spec rest field begins isReal
    exact absurd ⟨spec, rest, begins, isReal⟩ real

theorem Balanced.round_iff (format : List UInt8) :
    Leaves (Balanced bound balance) Prod.snd (Scanf.round host fuel format scan) <->
      Counts host fuel format scan := by
  obtain ⟨balance', leaves, same⟩ := balanced.round_leaves host enough format
  rw [<- same]
  constructor
  · intro kept
    exact leaves.unique kept
  · rintro rfl
    exact leaves

end

/-! ## Whole runs -/

theorem Reached.balanced {stream : σ} {text format rest : List UInt8} (before : Before stream text)
    (enough : text.length < fuel)
    (reached : Reached host fuel (Counts host fuel) stream format rest scan) :
    Balanced text.length text.length scan := by
  induction reached with
  | start => exact ⟨text, before, Nat.le_refl _, Int.zero_add _⟩
  | next reached met stepped ih =>
    have kept := (ih.round_iff host enough _).mpr met
    rw [stepped] at kept
    exact kept

theorem Reached.bounded {allowed : List UInt8 -> Scan σ host.LongDouble -> Prop} {stream : σ}
    {text format rest : List UInt8} (before : Before stream text) (enough : text.length < fuel)
    (reached : Reached host fuel allowed stream format rest scan) :
    ∃ left, Before scan.stream left /\ left.length <= text.length := by
  have balanced : ∃ balance, Balanced text.length balance scan := by
    induction reached with
    | start => exact ⟨_, text, before, Nat.le_refl _, rfl⟩
    | next reached met stepped ih =>
      obtain ⟨balance, here⟩ := ih
      obtain ⟨balance', leaves, _⟩ := here.round_leaves host enough _
      rw [stepped] at leaves
      exact ⟨balance', leaves⟩
  obtain ⟨_, left, before', bounded, _⟩ := balanced
  exact ⟨left, before', bounded⟩

/-! ## Every run ends -/

theorem fst_eq_of_map {ε α β : Type} {result : Except ε β} {first format : α} {after : β}
    (done : result.map (format, ·) = .ok (first, after)) : first = format := by
  cases result with
  | ok scan =>
    cases done
    rfl
  | error halt => cases done

variable {after : Scan σ host.LongDouble}

variable {format rest : List UInt8} {spec : Directive}

theorem convertScanset_length
    (done : convertScanset fuel spec format scan = .ok (rest, after)) :
    rest.length <= format.length := by
  suffices rest = (parseScanset format).2 from this ▸ parseScanset_length format
  unfold convertScanset at done
  dsimp only [bind, Except.bind] at done
  split at done
  · cases done
  · split at done
    · cases done
    · dsimp only [pure, Except.pure] at done
      split at done
      all_goals
        cases done
        rfl

theorem convert_length (done : convert host fuel spec format scan = .ok (rest, after)) :
    rest.length <= format.length := by
  unfold convert at done
  cases skipped : Scanf.leadingSpace fuel spec.conversion scan with
  | error halt =>
    rw [skipped] at done
    cases done
  | ok result =>
    rw [skipped] at done
    replace done : convertBranch host fuel spec format
      (branchOf spec.conversion result.1) result.2 = .ok (rest, after) := done
    cases branch : branchOf spec.conversion result.1 <;> rw [branch] at done
    case characters | real | integer | string | percent =>
      exact (congrArg List.length (fst_eq_of_map done)).le
    case scanset => exact convertScanset_length host done
    case count | nothing =>
      cases done
      exact Nat.le_refl _

/-- Every round takes something off the format. -/
theorem round_length (done : Scanf.round host fuel format scan = .ok (rest, after)) :
    rest.length < format.length := by
  unfold Scanf.round at done
  dsimp only at done
  split_ifs at done with ended space ordinary
  · rw [fst_eq_of_map done]
    exact tail_length_lt ended
  · rw [fst_eq_of_map done]
    exact tail_length_lt ended
  · have shorter := tail_length_lt ended
    have parsed := parseDirective_length format.tail
    cases found : parseDirective format.tail with
    | ended =>
      rw [found] at done
      cases done
    | unknown behind =>
      rw [found] at done parsed
      cases done
      exact parsed.trans_lt shorter
    | directive spec behind =>
      rw [found] at done parsed
      exact (convert_length host done).trans_lt (parsed.trans shorter)

/-- The rounds suffice: `vfscanf` returns, whatever the input and the format. -/
theorem vfscanf_finishes {stream : σ} {text : List UInt8} (before : Before stream text)
    (enough : text.length < fuel) (format : List UInt8) :
    vfscanf host fuel stream format ≠ .unfinished := by
  have ends (count : Nat) (rest : List UInt8) (scan : Scan σ host.LongDouble)
      (balance : Int) (balanced : Balanced text.length balance scan) (short : rest.length < count) :
      rounds host fuel count rest scan ≠ .unfinished := by
    induction count generalizing rest scan balance with
    | zero => exact absurd short (Nat.not_lt_zero _)
    | succ count ih =>
      obtain ⟨balance', leaves, _⟩ := balanced.round_leaves host enough rest
      rw [rounds]
      cases stepped : Scanf.round host fuel rest scan with
      | error halt =>
        rw [stepped] at leaves
        rintro rfl
        exact leaves
      | ok result =>
        rw [stepped] at leaves
        have shorter := round_length host stepped
        exact ih result.1 result.2 balance' leaves (by omega)
  exact ends _ format _ _ ⟨text, before, Nat.le_refl _, rfl⟩ (Nat.lt_succ_self _)

end Rounds

theorem vfscanf_finishes_number : vfscanf plainPlatform 2 [byteOf '7'] [37, 100] ≠ .unfinished :=
  vfscanf_finishes plainPlatform (rfl : Before [byteOf '7'] [byteOf '7']) (by decide) _

end Clib4.Stdio.Scanf
