import Clib4.Stdio.Scanf.Rounds
import Clib4.Stdlib.StrtolExact

namespace Clib4.Stdio.Scanf

open Foundation Stdlib
open TextStream (Before)

/-!
# `%%` and scansets

White space in front of a field is skipped into the variable that holds the
conversion character.  The last branches look at that variable: `%%` matches
where the input has a percent sign, does nothing at all where it has another
character or none, and becomes a scanset where it has a bracket; so does `%X`,
which has no branch of its own.
-/

section Directives

variable (host : Platform) {σ : Type} [TextStream σ UInt8] {fuel : Nat} {text : List UInt8}

/-! ## What the directives are for -/

/-- `%%` goes on behind a percent sign and ends the scan before anything else. -/
def PercentMatches (fuel : Nat) (format : List UInt8) (scan : Scan σ host.LongDouble)
    (text : List UInt8) : Prop :=
  ∀ spec rest, formatDirective format = some (spec, rest) ->
    spec.conversion = .percent ->
    (∀ behind, text.dropWhile isspace = byteOf '%' :: behind ->
      ∃ after, round host fuel format scan = .ok (rest, after) /\
        Before after.stream behind /\ Untouched scan after) /\
    ((text.dropWhile isspace).head? ≠ some (byteOf '%') ->
      ∃ after, (round host fuel format scan = .error (.stop after) \/
          round host fuel format scan = .error (.out after)) /\
        Before after.stream (text.dropWhile isspace) /\ Untouched scan after)

def RunsScanset (fuel : Nat) (spec : Directive) (scan : Scan σ host.LongDouble) : Prop :=
  ∃ c after, leadingSpace fuel spec.conversion scan = .ok (c, after) /\
    branchOf spec.conversion c = .scanset

/-- A directive is carried out as a scanset exactly if it is one. -/
def ScansetByFormat (fuel : Nat) (format : List UInt8) (scan : Scan σ host.LongDouble) :
    Prop :=
  ∀ spec rest, formatDirective format = some (spec, rest) ->
    (RunsScanset host fuel spec scan <-> spec.conversion = .scanset)

/-- Behind white space, the input has a percent sign for `%%` and no bracket for `%X`. -/
def PercentSafe (format text : List UInt8) : Prop :=
  ∀ spec rest, formatDirective format = some (spec, rest) ->
    (spec.conversion = .percent -> (text.dropWhile isspace).head? = some (byteOf '%')) /\
    (spec.conversion = .upperX -> (text.dropWhile isspace).head? ≠ some (byteOf '['))

/-! ## One round -/

theorem matchCharacter_same {ρ : Type} {scan : Scan σ ρ} {c : UInt8}
    (before : Before scan.stream (c :: text)) :
    ∃ after, matchCharacter c scan = .ok after /\ Before after.stream text /\
      Untouched scan after := by
  have start : Before (scan.field (-1)).scan.stream (c :: text) := before
  obtain ⟨got, looked, agrees⟩ := look_eq start (having fun d => c == d) ()
  have verdict : having (fun d => c == d) () c = .take () := if_pos (beq_self_eq_true c)
  rw [show (scan.field (-1)).width = -1 from rfl, lookText_take (by decide) verdict] at agrees
  refine ⟨((scan.field (-1)).behind got).scan, ?_, agrees.before, rfl, rfl, rfl, rfl⟩
  unfold matchCharacter
  rw [looked]
  dsimp only [bind, Except.bind]
  rw [agrees.ending]
  rfl

variable {conversion : ConversionType}

theorem keepsSpace_eq_none (skips : conversion = .percent \/ conversion = .upperX) :
    conversion.keepsSpace = none := by
  rcases skips with rfl | rfl <;> rfl

theorem branchOf_eq_scanset_iff (skips : conversion = .percent \/ conversion = .upperX)
    {c : Option UInt8} : branchOf conversion c = .scanset <-> c = some (byteOf '[') := by
  have unfolded : branchOf conversion c =
      if c = some (byteOf '%') then .percent
      else if c = some (byteOf '[') then .scanset else .nothing := by
    rcases skips with rfl | rfl <;> rfl
  rw [unfolded]
  split_ifs with percent bracket
  · rw [percent]
    exact iff_of_false nofun (by decide)
  · exact iff_of_true rfl bracket
  · exact iff_of_false nofun bracket

variable {scan : Scan σ host.LongDouble}

variable {spec : Directive}

theorem runsScanset_iff_bracket (before : Before scan.stream text) (enough : text.length < fuel)
    (skips : spec.conversion = .percent \/ spec.conversion = .upperX) :
    RunsScanset host fuel spec scan <->
      (text.dropWhile isspace).head? = some (byteOf '[') := by
  obtain ⟨after, skipped, _, _⟩ := leadingSpace_eq before enough (keepsSpace_eq_none skips)
  rw [<- branchOf_eq_scanset_iff skips]
  constructor
  · rintro ⟨c, after', skipped', branch⟩
    rw [skipped] at skipped'
    cases skipped'
    exact branch
  · intro branch
    exact ⟨_, after, skipped, branch⟩

theorem runsScanset_iff_conversion
    (notPercent : spec.conversion ≠ .percent) (notUpperX : spec.conversion ≠ .upperX) :
    RunsScanset host fuel spec scan <-> spec.conversion = .scanset := by
  constructor
  · rintro ⟨c, after, _, branch⟩
    cases conversion : spec.conversion with
    | percent => exact absurd conversion notPercent
    | upperX => exact absurd conversion notUpperX
    | scanset => rfl
    | c | f | d | i | o | u | x | s | n =>
      rw [conversion] at branch
      cases branch
  · intro scanset
    refine ⟨some (byteOf '['), scan, ?_, ?_⟩
    all_goals
      rw [scanset]
      rfl

variable {format : List UInt8}

theorem percent_matches (before : Before scan.stream text) (enough : text.length < fuel)
    {rest behind : List UInt8} (begins : formatDirective format = some (spec, rest))
    (percent : spec.conversion = .percent)
    (sign : text.dropWhile isspace = byteOf '%' :: behind) :
    ∃ after, round host fuel format scan = .ok (rest, after) /\
      Before after.stream behind /\ Untouched scan after := by
  obtain ⟨between, skipped, stands, kept⟩ := leadingSpace_eq before enough
    (keepsSpace_eq_none (Or.inl percent))
  rw [sign] at skipped stands
  obtain ⟨after, matched, stands', kept'⟩ := matchCharacter_same stands
  refine ⟨after, ?_, stands', kept.trans kept'⟩
  rw [round_directive host begins]
  unfold convert
  rw [skipped, percent]
  show (matchCharacter (byteOf '%') between).map (rest, ·) = _
  rw [matched]
  rfl

/-- Before anything but a percent sign or a bracket, `%%` does nothing and the scan
goes on. -/
theorem percent_passes (before : Before scan.stream text)
    (enough : text.length < fuel) {format rest : List UInt8}
    (begins : formatDirective format = some (spec, rest))
    (percent : spec.conversion = .percent)
    (noSign : (text.dropWhile isspace).head? ≠ some (byteOf '%'))
    (noBracket : (text.dropWhile isspace).head? ≠ some (byteOf '[')) :
    ∃ after, round host fuel format scan = .ok (rest, after) := by
  obtain ⟨after, skipped, _, _⟩ := leadingSpace_eq before enough
    (keepsSpace_eq_none (Or.inl percent))
  refine ⟨after, ?_⟩
  have branch : branchOf .percent (text.dropWhile isspace).head? = .nothing := by
    unfold branchOf
    rw [if_neg noSign, if_neg noBracket]
  rw [round_directive host begins]
  unfold convert
  rw [skipped, percent]
  show convertBranch host fuel spec rest (branchOf .percent _) after = _
  rw [branch]
  rfl

theorem percentSafe_of_matches (before : Before scan.stream text) (enough : text.length < fuel)
    (matching : PercentMatches host fuel format scan text)
    (byFormat : ScansetByFormat host fuel format scan) : PercentSafe format text := by
  -- a bracket would start a scanset the format does not have
  have noBracket : ∀ spec rest, formatDirective format = some (spec, rest) ->
      spec.conversion = .percent \/ spec.conversion = .upperX ->
      (text.dropWhile isspace).head? ≠ some (byteOf '[') := by
    intro spec rest begins skips bracket
    have scanset := (byFormat spec rest begins).mp
      ((runsScanset_iff_bracket host before enough skips).mpr bracket)
    rcases skips with percent | upperX
    · rw [percent] at scanset
      cases scanset
    · rw [upperX] at scanset
      cases scanset
  intro spec rest begins
  refine ⟨fun percent => ?_, fun upperX => noBracket spec rest begins (Or.inr upperX)⟩
  by_contra noSign
  obtain ⟨after, went⟩ := percent_passes host before enough begins percent noSign
    (noBracket spec rest begins (Or.inl percent))
  obtain ⟨_, halted, _, _⟩ := (matching spec rest begins percent).2 noSign
  rw [went] at halted
  rcases halted with stop | out
  · cases stop
  · cases out

theorem matches_of_percentSafe (before : Before scan.stream text) (enough : text.length < fuel)
    (holds : PercentSafe format text) :
    PercentMatches host fuel format scan text /\ ScansetByFormat host fuel format scan := by
  refine ⟨fun spec rest begins percent => ⟨fun behind sign => ?_, fun noSign => ?_⟩,
    fun spec rest begins => ?_⟩
  · exact percent_matches host before enough begins percent sign
  · exact absurd ((holds spec rest begins).1 percent) noSign
  · obtain ⟨sign, noBracket⟩ := holds spec rest begins
    by_cases percent : spec.conversion = .percent
    · rw [runsScanset_iff_bracket host before enough (Or.inl percent), sign percent, percent]
      exact iff_of_false (by decide) nofun
    · by_cases upperX : spec.conversion = .upperX
      · rw [runsScanset_iff_bracket host before enough (Or.inr upperX), upperX]
        exact iff_of_false (noBracket upperX) nofun
      · exact runsScanset_iff_conversion host percent upperX

/-! ## Whole runs -/

/-- In every round of every run, `%%` matches a percent sign or ends the scan and a
scanset is run where the format has one, exactly if the input has a percent sign for
`%%` and no bracket for `%X`. -/
theorem percent_by_format_iff {stream : σ} {format rest left : List UInt8}
    {scan : Scan σ host.LongDouble} (before : Before stream text)
    (enough : text.length < fuel)
    (reached : Reached host fuel (fun _ _ => True) stream format rest scan)
    (here : Before scan.stream left) :
    (PercentMatches host fuel rest scan left /\ ScansetByFormat host fuel rest scan) <->
      PercentSafe rest left := by
  obtain ⟨left', here', bounded⟩ := reached.bounded host before enough
  have same := before_unique here' here
  rw [same] at bounded
  have enoughLeft := Nat.lt_of_le_of_lt bounded enough
  constructor
  · rintro ⟨matching, byFormat⟩
    exact percentSafe_of_matches host here enoughLeft matching byFormat
  · exact matches_of_percentSafe host here enoughLeft

end Directives

/-! ## A letter and a bracket -/

theorem percent_by_format_sign :
    Before (bytesOf " %x") (bytesOf " %x") /\ (bytesOf " %x").length < 10 /\
      PercentMatches plainPlatform 10 (bytesOf "%%") (.initial (bytesOf " %x")) (bytesOf " %x") /\
      ScansetByFormat plainPlatform 10 (bytesOf "%%") (.initial (bytesOf " %x")) := by
  refine ⟨rfl, by decide, ?_⟩
  refine (percent_by_format_iff plainPlatform (rfl : Before (bytesOf " %x") (bytesOf " %x"))
    (by decide) .start rfl).mpr ?_
  intro spec rest begins
  cases begins
  exact ⟨fun _ => rfl, nofun⟩

/-- Before the letter `a`, `%%` neither matches nor ends the scan, and `%s` behind it
reads the input; before a bracket of the input, `%%` runs the scanset `[]`. -/
theorem percent_by_format_wrong :
    round plainPlatform 10 (bytesOf "%%%s") (.initial (bytesOf "abc")) =
        .ok (bytesOf "%s", .initial (bytesOf "abc")) /\
      ¬ PercentMatches plainPlatform 10 (bytesOf "%%%s") (.initial (bytesOf "abc"))
        (bytesOf "abc") /\
      RunsScanset plainPlatform 10 ⟨false, -1, .default, .percent⟩
        (.initial (bytesOf "[a")) := by
  have passed : round plainPlatform 10 (bytesOf "%%%s") (.initial (bytesOf "abc")) =
      .ok (bytesOf "%s", .initial (bytesOf "abc")) := rfl
  refine ⟨passed, fun matching => ?_, ⟨some (byteOf '['), .initial (bytesOf "[a"), rfl, rfl⟩⟩
  obtain ⟨_, halted, _, _⟩ :=
    (matching ⟨false, -1, .default, .percent⟩ (bytesOf "%s") rfl rfl).2 (by decide)
  rcases halted with stop | out
  · cases stop
  · cases out

end Clib4.Stdio.Scanf
