import Clib4.Stdio.Scanf.Rounds
import Clib4.Stdlib.StrtolExact

namespace Clib4.Stdio.Scanf

open Foundation Stdlib
open TextStream (Before)

/-!
# What `%n` stores

The counter is right as long as every search for a keyword keeps it right, and
then `%n` stores the number of characters consumed, where that number fits.
-/

section Rounds

variable (host : Platform) {σ : Type} [TextStream σ UInt8] {fuel : Nat}

def StoresCount (format : List UInt8) (spec : Directive) (rest : List UInt8) : Prop :=
  formatDirective format = some (spec, rest) /\ spec.conversion = .n /\
    spec.suppressed = false

/-- What `%n` stores is a given number. -/
def CountStored (fuel : Nat) (format : List UInt8) (scan : Scan σ host.LongDouble)
    (consumed : Int) : Prop :=
  ∀ spec rest, StoresCount format spec rest ->
    ∃ after, round host fuel format scan = .ok (rest, after) /\
      after.stores = scan.stores ++ [⟨scan.params, 0, .integer spec.size.bits consumed⟩]

/-- The number fits the parameter of `%n`, and the counter. -/
def CountFits (format : List UInt8) (consumed : Int) : Prop :=
  ∀ spec rest, StoresCount format spec rest ->
    consumed < 2 ^ (min spec.size.bits 32 - 1)

theorem round_storesCount {format rest : List UInt8} {spec : Directive}
    (stores : StoresCount format spec rest) (scan : Scan σ host.LongDouble) :
    round host fuel format scan = .ok (rest, storeCount spec scan) := by
  obtain ⟨begins, isCount, _⟩ := stores
  rw [round_directive host begins]
  unfold convert leadingSpace
  rw [isCount]
  rfl

omit [TextStream σ UInt8] in
theorem storeCount_stores {ρ : Type} {spec : Directive} (stored : spec.suppressed = false)
    (scan : Scan σ ρ) :
    (storeCount spec scan).stores = scan.stores ++
      [⟨scan.params, 0, .integer spec.size.bits
        (signed spec.size.bits (signed 32 scan.totalNumCharsRead))⟩] := by
  unfold storeCount Scan.takeParameter Scan.store
  dsimp only
  rw [stored]
  rfl

theorem signed_signed_eq_iff (size : ParameterSize) {value : Int} (nonnegative : 0 <= value) :
    signed size.bits (signed 32 value) = value <-> value < 2 ^ (min size.bits 32 - 1) := by
  have fits {w : Nat} (inner : value < 2 ^ w) : signed (w + 1) value = value :=
    signed_of_fits ((neg_nonpos.mpr (by positivity)).trans nonnegative) inner
  have small {w : Nat} (few : w <= 31) :
      signed (w + 1) (signed 32 value) = value <-> value < 2 ^ w := by
    constructor
    · intro same
      rw [<- same]
      exact signed_lt w _
    · intro inner
      have inner' := inner.trans_le (pow_le_pow_right₀ (by decide) few)
      rw [fits inner', fits inner]
  have wide : signed 64 (signed 32 value) = signed 32 value := by
    have lower : -2 ^ 31 <= signed 32 value := le_signed 31 value
    have upper : signed 32 value < 2 ^ 31 := signed_lt 31 value
    exact signed_of_fits (by omega) (by omega)
  have long : signed 64 (signed 32 value) = value <-> value < 2 ^ 31 := by
    rw [wide]
    constructor
    · intro same
      rw [<- same]
      exact signed_lt 31 _
    · exact fits
  cases size with
  | byte | short => exact small (by decide)
  | longLong | intmaxT => exact long
  | long | sizeT | ptrdiffT | longDouble | default => exact small (by decide)

/-- For every text, format and stream: in a run whose rounds all keep the count
right, `%n` stores the number of characters consumed exactly when it fits; and a
round keeps the count right exactly when its search for a keyword does. -/
theorem count_stored_iff (stream : σ) (text format : List UInt8) (before : Before stream text)
    (enough : text.length < fuel) :
    (∀ rest scan left, Reached host fuel (Counts host fuel) stream format rest scan ->
      Before scan.stream left ->
      (CountStored host fuel rest scan (text.length - left.length) <->
        CountFits rest (text.length - left.length))) /\
    ∀ rest (scan : Scan σ host.LongDouble), Balanced text.length text.length scan ->
      (Leaves (Balanced text.length text.length) Prod.snd (round host fuel rest scan) <->
        Counts host fuel rest scan) := by
  constructor
  · intro rest scan left reached before'
    obtain ⟨left', before'', bounded, sum⟩ := reached.balanced host before enough
    rw [before_unique before'' before'] at bounded sum
    have total : scan.totalNumCharsRead = text.length - left.length := by omega
    have nonnegative : 0 <= (text.length - left.length : Int) := by omega
    refine forall_congr' fun spec => forall_congr' fun behind => forall_congr' fun stores => ?_
    rw [round_storesCount host stores, <- signed_signed_eq_iff spec.size nonnegative,
      <- total]
    constructor
    · rintro ⟨_, ⟨⟩, same⟩
      rw [storeCount_stores stores.2.2] at same
      have equal := List.append_cancel_left same
      injection equal with equal
      injection equal with _ _ equal
      injection equal
    · intro same
      refine ⟨_, rfl, ?_⟩
      rw [storeCount_stores stores.2.2, same]
  · intro rest scan balanced
    exact balanced.round_iff host enough rest

end Rounds

/-! ## A sign in front of a keyword -/

/-- The scan behind the number of `12x`. -/
def behindTwelve : Scan (List UInt8) Unit :=
  ⟨bytesOf "x", 2, 1, 1, 1, [⟨0, 0, .integer 32 0⟩, ⟨0, 0, .integer 32 12⟩]⟩

theorem count_stored_behind_number :
    Before (bytesOf "12x") (bytesOf "12x") /\ (bytesOf "12x").length < 10 /\
      CountStored plainPlatform 10 (bytesOf "%n") behindTwelve 2 := by
  have counts : Counts plainPlatform 10 (bytesOf "%d%n") (.initial (bytesOf "12x")) := by
    intro spec rest field begins isReal
    cases begins
    cases isReal
  have reached : Reached plainPlatform 10 (Counts plainPlatform 10) (bytesOf "12x")
      (bytesOf "%d%n") (bytesOf "%n") behindTwelve := .next .start counts rfl
  refine ⟨rfl, by decide, ?_⟩
  refine ((count_stored_iff plainPlatform (bytesOf "12x") (bytesOf "12x") (bytesOf "%d%n") rfl
    (by decide)).1 _ _ (bytesOf "x") reached rfl).mpr ?_
  intro spec rest stores
  have begins := stores.1
  cases begins
  decide

/-- Behind `+inf` the counter is three, and four characters have been consumed. -/
theorem count_stored_wrong : (bytesOf "+inf").length = 4 /\
    vfscanf plainPlatform 10 (bytesOf "+inf") (bytesOf "%f%n") =
      .stop ⟨[], 3, 1, 1, 2, [⟨0, 0, .real .default ()⟩, ⟨0, 0, .real .default ()⟩,
        ⟨1, 0, .integer 32 3⟩]⟩ := by
  exact ⟨rfl, rfl⟩

end Clib4.Stdio.Scanf
