import DspDispatch.Pocketfft.Sizes

/-!
# The choice of an algorithm (constructors of `pocketfft_c` and `pocketfft_r`)

A constructor takes the passes for lengths without large prime factors, and otherwise what it
guesses to be cheaper. The guess decides between two algorithms that compute the same; it
matters for one thing only: the padded length of Bluestein's algorithm is looked for whenever
the largest prime factor exceeds the square root of the length, and `good_size_cmplx` refuses
lengths that are too large.
-/

namespace DspDispatch.Pocketfft

open Kit

/-- The square of the largest prime factor, zero for short lengths. -/
def largestSquare (length : Nat) : Option Nat :=
  (if length < 50 then some 0 else largestPrimeFactor length).map fun tmp => mulSize tmp tmp

/-- What the constructors make if `useBluestein` compares the costs: `true` for Bluestein's
algorithm, `false` for the passes, and `none` for an exception. -/
def choose (useBluestein : Nat → Option Bool) (length : Nat) : Option Bool :=
  if length = 0 then none
  else (largestSquare length).bind fun square =>
    if square ≤ length then some false else useBluestein length

namespace PocketfftC

/-- `comp2<comp1`; `none` is the exception of `good_size_cmplx`. -/
def useBluestein (length : Nat) : Option Bool := do
  let comp1 ← costGuess length
  let padded ← goodSizeCmplx (subSize (mulSize 2 length) 1)
  let comp2 ← costGuess padded
  let comp2 := 2 * comp2 * (3 / 2)
  some (decide (comp2 < comp1))

/-- The plan that `pocketfft_c` makes. -/
def choice (length : Nat) : Option Bool := choose useBluestein length

/-- The lengths the constructor refuses, as far as twice the length is a `size_t` value: zero,
and those without a padded length where it looks for one. -/
def Refused (n : Nat) : Prop :=
  n = 0 ∨ 50 ≤ n ∧ 2 ^ 64 - 1 < 22 * (2 * n - 1) ∧
    n < mulSize (n.primeFactorsList.getLast?.getD 1) (n.primeFactorsList.getLast?.getD 1)

instance (n : Nat) : Decidable (Refused n) := inferInstanceAs (Decidable (_ ∨ _))

end PocketfftC

namespace PocketfftR

/-- `comp2<comp1`; the real passes count half. -/
def useBluestein (length : Nat) : Option Bool := do
  let cost ← costGuess length
  let comp1 := 1 / 2 * cost
  let padded ← goodSizeCmplx (subSize (mulSize 2 length) 1)
  let comp2 ← costGuess padded
  let comp2 := 2 * comp2 * (3 / 2)
  some (decide (comp2 < comp1))

/-- The plan that `pocketfft_r` makes. -/
def choice (length : Nat) : Option Bool := choose useBluestein length

end PocketfftR

section Choice

variable {n : Nat}

theorem largestSquare_eq (positive : 0 < n) :
    largestSquare n = some (if n < 50 then 0 else
      mulSize (n.primeFactorsList.getLast?.getD 1) (n.primeFactorsList.getLast?.getD 1)) := by
  rw [largestSquare]
  split
  · rw [Option.map_some, mulSize_of_lt (by decide)]
  · rw [largestPrimeFactor_eq positive, Option.map_some]

/-- A constructor chooses an algorithm for every length that is not refused, the costs being
compared only if there is a padded length. -/
theorem choose_of_accepted {useBluestein : Nat → Option Bool} (accepted : ¬ PocketfftC.Refused n)
    (compared : n * 2 - 1 ≤ (2 ^ 64 - 1) / 11 / 2 → ∃ blue, useBluestein n = some blue) :
    ∃ blue, choose useBluestein n = some blue ∧
      (blue = true → n * 2 - 1 ≤ (2 ^ 64 - 1) / 11 / 2) := by
  have positive : 0 < n := Nat.pos_of_ne_zero fun zero => accepted (.inl zero)
  rw [choose, if_neg positive.ne', largestSquare_eq positive, Option.bind_some]
  by_cases smooth : (if n < 50 then 0 else mulSize (n.primeFactorsList.getLast?.getD 1)
      (n.primeFactorsList.getLast?.getD 1)) ≤ n
  · exact ⟨false, if_pos smooth, fun blue => absurd blue (by decide)⟩
  · rw [if_neg smooth]
    have long : ¬ n < 50 := fun short => smooth (by rw [if_pos short]; exact Nat.zero_le n)
    rw [if_neg long, Nat.not_le] at smooth
    have small : n * 2 - 1 ≤ (2 ^ 64 - 1) / 11 / 2 := by
      by_contra large
      exact accepted (.inr ⟨by omega, by omega, smooth⟩)
    obtain ⟨blue, compares⟩ := compared small
    exact ⟨blue, compares, fun _ => small⟩

/-- For a refused length it throws where the comparison does. -/
theorem choose_of_refused {useBluestein : Nat → Option Bool} (refused : PocketfftC.Refused n)
    (thrown : 0 < n → 2 ^ 64 - 1 < 22 * (2 * n - 1) → useBluestein n = none) :
    choose useBluestein n = none := by
  rcases Nat.eq_zero_or_pos n with rfl | positive
  · rfl
  · obtain ⟨long, large, rough⟩ := refused.resolve_left positive.ne'
    rw [choose, if_neg positive.ne', largestSquare_eq positive, Option.bind_some,
      if_neg (by omega : ¬ n < 50), if_neg (by omega), thrown positive large]

/-! ## The padded length -/

theorem padded_eq (positive : 0 < n) (fits : n < 2 ^ 63) : subSize (mulSize 2 n) 1 = 2 * n - 1 := by
  rw [mulSize_of_lt (by omega), subSize_of_le (by omega) (by omega)]

/-- A padded length that is found has a cost. -/
theorem exists_padded (positive : 0 < n) (small : n * 2 - 1 ≤ (2 ^ 64 - 1) / 11 / 2) :
    ∃ padded cost, goodSizeCmplx (subSize (mulSize 2 n) 1) = some padded ∧
      costGuess padded = some cost := by
  rw [padded_eq positive (by omega)]
  obtain ⟨padded, found, ⟨-, wide⟩, -⟩ :=
    goodSizeCmplx_isLeast (by omega : 0 < 2 * n - 1) (by omega)
  exact ⟨padded, _, found, costGuess_eq (by omega)⟩

theorem padded_eq_none (positive : 0 < n) (fits : n < 2 ^ 63)
    (large : 2 ^ 64 - 1 < 22 * (2 * n - 1)) : goodSizeCmplx (subSize (mulSize 2 n) 1) = none := by
  rw [padded_eq positive fits]
  exact (goodSizeCmplx_eq_none (by omega)).mpr large

namespace PocketfftC

theorem choice_of_accepted (accepted : ¬ Refused n) :
    ∃ blue, choice n = some blue ∧ (blue = true → n * 2 - 1 ≤ (2 ^ 64 - 1) / 11 / 2) := by
  have positive : 0 < n := Nat.pos_of_ne_zero fun zero => accepted (.inl zero)
  refine choose_of_accepted accepted fun small => ?_
  obtain ⟨padded, cost, found, weighed⟩ := exists_padded positive small
  simp only [useBluestein, costGuess_eq positive, found, weighed, Option.bind_eq_bind,
    Option.bind_some]
  exact ⟨_, rfl⟩

theorem choice_of_refused (fits : n < 2 ^ 63) (refused : Refused n) : choice n = none := by
  refine choose_of_refused refused fun positive large => ?_
  simp only [useBluestein, costGuess_eq positive, padded_eq_none positive fits large,
    Option.bind_eq_bind, Option.bind_some, Option.bind_none]

end PocketfftC

namespace PocketfftR

theorem choice_of_accepted (accepted : ¬ PocketfftC.Refused n) :
    ∃ blue, choice n = some blue ∧ (blue = true → n * 2 - 1 ≤ (2 ^ 64 - 1) / 11 / 2) := by
  have positive : 0 < n := Nat.pos_of_ne_zero fun zero => accepted (.inl zero)
  refine choose_of_accepted accepted fun small => ?_
  obtain ⟨padded, cost, found, weighed⟩ := exists_padded positive small
  simp only [useBluestein, costGuess_eq positive, found, weighed, Option.bind_eq_bind,
    Option.bind_some]
  exact ⟨_, rfl⟩

/-- The real constructor refuses the lengths that the complex one refuses. -/
theorem choice_of_refused (fits : n < 2 ^ 63) (refused : PocketfftC.Refused n) :
    choice n = none := by
  refine choose_of_refused refused fun positive large => ?_
  simp only [useBluestein, costGuess_eq positive, padded_eq_none positive fits large,
    Option.bind_eq_bind, Option.bind_some, Option.bind_none]

end PocketfftR

end Choice

end DspDispatch.Pocketfft
